import SuiteLint.Proofs.DisablerTable

/-!
# What disablers mean

A rule is switched off on a line by a `disable` that ends this line, or by one on a line of its own at or
before it, unless an `enable` stands strictly between the two. The table that is kept while a file is read
says the same.
-/

namespace SuiteLint.Disabler

def HoldsAt (lines : List (List Char)) (number : Int) (p : List Char → Prop) : Prop :=
  ∃ (k : Nat) (line : List Char), lines[k]? = some line ∧ number = k + 1 ∧ p line

def InBlock (lines : List (List Char)) (number : Int) (rule : String) : Prop :=
  ∃ start ≤ number, HoldsAt lines start (IsBlock .disable · rule) ∧
    ∀ stop, start < stop → stop < number → ¬ HoldsAt lines stop (Ends · rule)

def SwitchedOff (lines : List (List Char)) (number : Int) (rule : String) : Prop :=
  HoldsAt lines number (IsInline · rule) ∨
    number ≤ lines.length ∧ InBlock lines number rule

/-! ## One more line -/

theorem HoldsAt.bounds {lines : List (List Char)} {number : Int} {p : List Char → Prop}
    (h : HoldsAt lines number p) : 1 ≤ number ∧ number ≤ lines.length := by
  obtain ⟨k, line, hk, rfl, -⟩ := h
  have := (List.getElem?_eq_some_iff.mp hk).1
  omega

theorem holdsAt_append {lines : List (List Char)} {line : List Char} {number : Int}
    {p : List Char → Prop} :
    HoldsAt (lines ++ [line]) number p ↔
      HoldsAt lines number p ∨ number = lines.length + 1 ∧ p line := by
  constructor
  · rintro ⟨k, found, hk, rfl, hp⟩
    rcases Nat.lt_or_ge k lines.length with hlt | hge
    · rw [List.getElem?_append_left hlt] at hk
      exact Or.inl ⟨k, found, hk, rfl, hp⟩
    · rw [List.getElem?_append_right hge, List.getElem?_singleton] at hk
      split at hk
      · cases hk
        exact Or.inr ⟨by omega, hp⟩
      · cases hk
  · rintro (⟨k, found, hk, rfl, hp⟩ | ⟨rfl, hp⟩)
    · have hlt := (List.getElem?_eq_some_iff.mp hk).1
      exact ⟨k, found, by rwa [List.getElem?_append_left hlt], rfl, hp⟩
    · exact ⟨lines.length, line, by simp, rfl, hp⟩

def StillOpen (lines : List (List Char)) (rule : String) : Prop :=
  ∃ start, HoldsAt lines start (IsBlock .disable · rule) ∧
    ∀ stop, start < stop → ¬ HoldsAt lines stop (Ends · rule)

theorem stillOpen_append {lines : List (List Char)} {line : List Char} {rule : String} :
    StillOpen (lines ++ [line]) rule ↔
      IsBlock .disable line rule ∨ ¬ Ends line rule ∧ StillOpen lines rule := by
  constructor
  · rintro ⟨start, hstart, hno⟩
    rcases holdsAt_append.mp hstart with hstart | ⟨-, hline⟩
    · have hle := hstart.bounds.2
      refine Or.inr ⟨fun he => hno _ (by omega) (holdsAt_append.mpr (Or.inr ⟨rfl, he⟩)), start,
        hstart, ?_⟩
      intro stop hlt hs
      exact hno stop hlt (holdsAt_append.mpr (Or.inl hs))
    · exact Or.inl hline
  · rintro (hline | ⟨hne, start, hstart, hno⟩)
    · refine ⟨lines.length + 1, holdsAt_append.mpr (Or.inr ⟨rfl, hline⟩), ?_⟩
      intro stop hlt hs
      have := hs.bounds.2
      simp only [List.length_append, List.length_singleton] at this
      omega
    · refine ⟨start, holdsAt_append.mpr (Or.inl hstart), ?_⟩
      intro stop hlt hs
      rcases holdsAt_append.mp hs with hs | ⟨-, he⟩
      · exact hno stop hlt hs
      · exact hne he

theorem inBlock_append_of_le {lines : List (List Char)} {line : List Char} {rule : String}
    {number : Int} (hle : number ≤ lines.length) :
    InBlock (lines ++ [line]) number rule ↔ InBlock lines number rule := by
  have hold {k : Int} {p : List Char → Prop} (hk : k ≤ number) :
      HoldsAt (lines ++ [line]) k p ↔ HoldsAt lines k p := by
    rw [holdsAt_append]
    constructor
    · rintro (h | ⟨rfl, -⟩)
      · exact h
      · omega
    · exact Or.inl
  constructor
  · rintro ⟨start, hs, hstart, hno⟩
    refine ⟨start, hs, (hold hs).mp hstart, ?_⟩
    intro stop h₁ h₂ h
    exact hno stop h₁ h₂ ((hold (by omega)).mpr h)
  · rintro ⟨start, hs, hstart, hno⟩
    refine ⟨start, hs, (hold hs).mpr hstart, ?_⟩
    intro stop h₁ h₂ h
    exact hno stop h₁ h₂ ((hold (by omega)).mp h)

theorem inBlock_append_last {lines : List (List Char)} {line : List Char} {rule : String} :
    InBlock (lines ++ [line]) (lines.length + 1) rule ↔
      IsBlock .disable line rule ∨ StillOpen lines rule := by
  constructor
  · rintro ⟨start, -, hstart, hno⟩
    rcases holdsAt_append.mp hstart with hstart | ⟨-, hline⟩
    · refine Or.inr ⟨start, hstart, ?_⟩
      intro stop hlt hs
      exact hno stop hlt (by have := hs.bounds.2; omega) (holdsAt_append.mpr (Or.inl hs))
    · exact Or.inl hline
  · rintro (hline | ⟨start, hstart, hno⟩)
    · exact ⟨_, Int.le_refl _, holdsAt_append.mpr (Or.inr ⟨rfl, hline⟩), by omega⟩
    · refine ⟨start, by have := hstart.bounds.2; omega, holdsAt_append.mpr (Or.inl hstart), ?_⟩
      intro stop hlt hlast hs
      rcases holdsAt_append.mp hs with hs | ⟨rfl, -⟩
      · exact hno stop hlt hs
      · omega

namespace Marks

variable (number : Nat) (line : List Char) (rule : String) (m : Marks)

private theorem mem_next_lines (l : Nat) :
    l ∈ (m.next number line rule).lines ↔ l ∈ m.lines ∨ l = number ∧ IsInline line rule := by
  unfold next
  by_cases hi : IsInline line rule <;> by_cases hd : IsBlock .disable line rule <;>
    by_cases he : Ends line rule <;> simp [hi, hd, he, openAt, mem_addLine_lines]

theorem next_opened :
    (m.next number line rule).opened =
      if IsBlock .disable line rule then m.opened.or (some number)
      else if Ends line rule then Option.none else m.opened := by
  unfold next
  by_cases hi : IsInline line rule <;> by_cases hd : IsBlock .disable line rule <;>
    by_cases he : Ends line rule <;> simp [hi, hd, he, openAt]

theorem next_blocks :
    (m.next number line rule).blocks =
      if IsBlock .disable line rule then m.blocks
      else if Ends line rule then m.blocks ++ m.opened.toList.map (·, number) else m.blocks := by
  unfold next
  by_cases hi : IsInline line rule <;> by_cases hd : IsBlock .disable line rule <;>
    by_cases he : Ends line rule <;> simp [hi, hd, he, openAt]

def Spans (m : Marks) (l : Int) : Prop :=
  (∃ b ∈ m.blocks, (b.1 : Int) ≤ l ∧ l ≤ b.2) ∨ ∃ start, m.opened = some start ∧ (start : Int) ≤ l

/-- The marks of a rule say what the lines that were read say. -/
structure Reflects (lines : List (List Char)) (rule : String) (m : Marks) : Prop where
  inline : ∀ l : Nat, l ∈ m.lines ↔ HoldsAt lines l (IsInline · rule)
  blocks_le : ∀ b ∈ m.blocks, b.2 ≤ lines.length
  opened_le : ∀ start, m.opened = some start → start ≤ lines.length
  opened_iff : m.opened.isSome = true ↔ StillOpen lines rule
  spans_iff : ∀ l : Int, l ≤ lines.length → (m.Spans l ↔ InBlock lines l rule)

theorem spans_next_of_lt {number : Nat} {l : Int} (hl : l < number) :
    (m.next number line rule).Spans l ↔ m.Spans l := by
  unfold Spans
  rw [next_opened, next_blocks]
  by_cases hd : IsBlock .disable line rule
  · simp only [hd, if_true]
    cases m.opened with
    | some start => simp
    | none =>
      have hnot : ¬ (number : Int) ≤ l := by omega
      simp [hnot]
  · by_cases he : Ends line rule
    · simp only [hd, he, if_true, if_false]
      cases m.opened with
      | some start =>
        have hle : l ≤ (number : Int) := by omega
        simp [or_and_right, exists_or, hle]
      | none => simp
    · simp only [hd, he, if_false]

theorem spans_next_last {number : Nat} (hb : ∀ b ∈ m.blocks, b.2 < number)
    (ho : ∀ start, m.opened = some start → start < number) :
    (m.next number line rule).Spans number ↔ IsBlock .disable line rule ∨ m.opened.isSome = true := by
  have hold : ¬ ∃ b ∈ m.blocks, (b.1 : Int) ≤ number ∧ (number : Int) ≤ b.2 := by
    rintro ⟨b, hmem, -, hle⟩
    have := hb b hmem
    omega
  unfold Spans
  rw [next_opened, next_blocks]
  by_cases hd : IsBlock .disable line rule
  · simp only [hd, if_true, hold, false_or, true_or, iff_true]
    cases hs : m.opened with
    | some start =>
      have := ho start hs
      exact ⟨start, rfl, by omega⟩
    | none => exact ⟨number, rfl, by omega⟩
  · by_cases he : Ends line rule
    · simp only [hd, he, if_true, if_false, false_or]
      cases hs : m.opened with
      | some start =>
        have := ho start hs
        simp only [Option.toList_some, List.map_cons, List.map_nil, Option.isSome_some, iff_true]
        exact Or.inl ⟨(start, number), by simp, by omega, by omega⟩
      | none => simpa using hold
    · simp only [hd, he, if_false, hold, false_or]
      cases hs : m.opened with
      | some start =>
        have := ho start hs
        simp only [Option.isSome_some, iff_true]
        exact ⟨start, rfl, by omega⟩
      | none => simp

theorem reflects_nil (rule : String) : Reflects [] rule .none := by
  have hno {number : Int} {p : List Char → Prop} : ¬ HoldsAt [] number p := by
    rintro ⟨k, line, hk, -⟩
    simp at hk
  exact {
    inline := by simp [Marks.none, hno]
    blocks_le := by simp [Marks.none]
    opened_le := by simp [Marks.none]
    opened_iff := by simp [Marks.none, StillOpen, hno]
    spans_iff := by simp [Marks.none, Spans, InBlock, hno] }

/-- Reading a line keeps the marks true: only the line itself can be new in a block, and it is so
exactly if it opens one or some block is open. -/
theorem Reflects.next {lines : List (List Char)} {rule : String} {m : Marks}
    (h : Reflects lines rule m) (line : List Char) :
    Reflects (lines ++ [line]) rule (m.next (lines.length + 1) line rule) := by
  have hlen : (lines ++ [line]).length = lines.length + 1 := by simp
  refine ⟨?_, ?_, ?_, ?_, ?_⟩
  · intro l
    rw [mem_next_lines, h.inline, holdsAt_append]
    norm_cast
  · intro b hb
    rw [next_blocks] at hb
    have hold (hb : b ∈ m.blocks) : b.2 ≤ (lines ++ [line]).length :=
      hlen ▸ Nat.le_succ_of_le (h.blocks_le b hb)
    split at hb
    · exact hold hb
    · split at hb
      · rcases List.mem_append.mp hb with hb | hb
        · exact hold hb
        · obtain ⟨start, -, rfl⟩ := List.mem_map.mp hb
          exact hlen ▸ Nat.le_refl _
      · exact hold hb
  · intro start hs
    rw [next_opened] at hs
    have hold (hs : m.opened = some start) : start ≤ (lines ++ [line]).length :=
      hlen ▸ Nat.le_succ_of_le (h.opened_le start hs)
    split at hs
    · rcases Option.or_eq_some_iff.mp hs with hs | ⟨-, hs⟩
      · exact hold hs
      · cases hs
        exact hlen ▸ Nat.le_refl _
    · split at hs
      · cases hs
      · exact hold hs
  · rw [next_opened, stillOpen_append, ← h.opened_iff]
    by_cases hd : IsBlock .disable line rule <;> by_cases he : Ends line rule <;> simp [hd, he]
  · intro l hl
    rw [hlen] at hl
    rcases Int.lt_or_eq_of_le hl with hlt | rfl
    · rw [spans_next_of_lt _ _ _ hlt, inBlock_append_of_le (by omega)]
      exact h.spans_iff l (by omega)
    · rw [spans_next_last _ _ _ (fun b hb => Nat.lt_succ_of_le (h.blocks_le b hb))
        (fun start hs => Nat.lt_succ_of_le (h.opened_le start hs)), h.opened_iff]
      exact inBlock_append_last.symm

/-- At the end of the lines the open block becomes a closed one. -/
theorem Reflects.mem_close_iff {lines : List (List Char)} {rule : String} {m : Marks}
    (h : Reflects lines rule m) (l : Int) :
    (∃ b ∈ (m.close lines.length).blocks, (b.1 : Int) ≤ l ∧ l ≤ b.2) ↔
      l ≤ lines.length ∧ m.Spans l := by
  rw [close_blocks]
  constructor
  · rintro ⟨b, hb, hle⟩
    rcases List.mem_append.mp hb with hb | hb
    · have := h.blocks_le b hb
      exact ⟨by omega, Or.inl ⟨b, hb, hle⟩⟩
    · obtain ⟨start, hs, rfl⟩ := List.mem_map.mp hb
      exact ⟨hle.2, Or.inr ⟨start, Option.mem_toList.mp hs, hle.1⟩⟩
  · rintro ⟨hl, ⟨b, hb, hle⟩ | ⟨start, hs, hle⟩⟩
    · exact ⟨b, List.mem_append_left _ hb, hle⟩
    · refine ⟨(start, lines.length), List.mem_append_right _ ?_, hle, hl⟩
      exact List.mem_map.mpr ⟨start, Option.mem_toList.mpr hs, rfl⟩

end Marks

theorem reflects_readLines (read lines : List (List Char)) (t : Table)
    (h : ∀ rule, Marks.Reflects read rule (t.marks rule)) (rule : String) :
    Marks.Reflects (read ++ lines) rule ((readLines t (read.length + 1) lines).marks rule) := by
  induction lines generalizing read t with
  | nil => simpa [readLines] using h rule
  | cons line lines ih =>
    have hstep (rule : String) :
        Marks.Reflects (read ++ [line]) rule ((readLine t (read.length + 1) line).marks rule) := by
      rw [marks_readLine]
      exact (h rule).next line
    simpa [readLines] using ih (read ++ [line]) _ hstep

end SuiteLint.Disabler

namespace SuiteLint.Disablers
open Disabler

theorem ofLines_table (lines : List (List Char)) :
    (ofLines lines).table = (readLines [] 1 lines).closeBlock "all" lines.length := by
  cases lines <;> rfl

private theorem ofLines_any (lines : List (List Char)) :
    (ofLines lines).any = !(ofLines lines).table.isEmpty := by
  cases lines <;> rfl

theorem coversLine_iff (d : Disablers) (line : Int) (rule : String) :
    d.coversLine line rule = true ↔
      (∃ l ∈ (d.table.marks rule).lines, (l : Int) = line) ∨
        ∃ b ∈ (d.table.marks rule).blocks, (b.1 : Int) ≤ line ∧ line ≤ b.2 := by
  unfold coversLine Table.marks
  cases d.table.lookup rule with
  | some m => simp
  | none => simp [Marks.none]

theorem coversLine_ofLines_iff (lines : List (List Char)) (line : Int) (rule : String) :
    (ofLines lines).coversLine line rule = true ↔ SwitchedOff lines line rule := by
  have h := reflects_readLines [] lines [] (fun rule => Marks.reflects_nil rule) rule
  simp only [List.nil_append, List.length_nil, Nat.zero_add] at h
  rw [coversLine_iff, ofLines_table, Table.marks_closeBlock, if_pos (Or.inl rfl)]
  generalize (readLines [] 1 lines).marks rule = m at h
  rw [h.mem_close_iff, Marks.close_lines]
  apply or_congr
  · constructor
    · rintro ⟨l, hl, rfl⟩
      exact (h.inline l).mp hl
    · intro hat
      have hpos := hat.bounds.1
      refine ⟨line.toNat, (h.inline _).mpr ?_, by omega⟩
      rwa [Int.toNat_of_nonneg (by omega)]
  · exact and_congr_right fun hl => h.spans_iff line hl

/-- Where the comments name no rule, no line is covered, so the question whether they name any can
be left out. -/
theorem covers_ofLines_eq (lines : List (List Char)) (places : List Int) (id name : String) :
    (ofLines lines).covers places id name =
      places.any fun l => ["all", id, name].any ((ofLines lines).coversLine l) := by
  unfold covers
  cases hany : (ofLines lines).any with
  | true => rw [Bool.true_and]
  | false =>
    have hempty : (ofLines lines).table = [] := by simpa [ofLines_any] using hany
    simp [coversLine, hempty]

/-- An issue is switched off exactly if, on one of its lines, `# noqa` or `# robocop: disable` switches off
all rules, its id or its name. The shortcut `any` never changes this. -/
theorem covers_ofLines_iff (lines : List (List Char)) (line : Int) (extraLines : List Int)
    (id name : String) :
    ((ofLines lines).covers (line :: extraLines) id name = true ↔
      ∃ l ∈ line :: extraLines, ∃ rule ∈ ["all", id, name], SwitchedOff lines l rule) ∧
    (ofLines lines).covers (line :: extraLines) id name =
      (line :: extraLines).any fun l => ["all", id, name].any ((ofLines lines).coversLine l) := by
  refine ⟨?_, covers_ofLines_eq lines _ id name⟩
  rw [covers_ofLines_eq]
  simp only [List.any_eq_true, coversLine_ofLines_iff]

end SuiteLint.Disablers
