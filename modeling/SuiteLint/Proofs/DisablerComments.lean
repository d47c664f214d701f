import SuiteLint.Disabler
import SuiteLint.Proofs.TextParts

/-!
# How disablers are written

A comment holds a command if its text has one anywhere: `robocop:`, `disable` or `enable`, and a list of
rules, which is empty for all rules. What stands before it decides whether it concerns its line or a block.
-/

namespace SuiteLint.Disabler

def Action.word : Action → List Char
  | .disable => "disable".toList
  | .enable => "enable".toList

def rulesOf (names : List Char) : List String :=
  if names.isEmpty then ["all"] else (Text.splitAt ',' names).map String.ofList

/-- A text starts with a command: the list of names is as long as possible, and an equals sign
before it does not belong to it. -/
def Spells (text : List Char) (c : Command) : Prop :=
  ∃ gap sign names rest, text = "robocop:".toList ++ gap ++ c.action.word ++ sign ++ names ++ rest ∧
    (gap = [] ∨ gap = [' ']) ∧ (sign = ['='] ∨ sign = [] ∧ (names ++ rest).head? ≠ some '=') ∧
    (∀ ch ∈ names, isRuleNameChar ch = true) ∧ (∀ ch ∈ rest.head?, isRuleNameChar ch = false) ∧
    c.rules = rulesOf names

def FirstCommand (text : List Char) (c : Command) : Prop :=
  ∃ before rest, text = before ++ rest ∧ Spells rest c ∧
    ∀ before' rest', text = before' ++ rest' → before'.length < before.length →
      ∀ c', ¬ Spells rest' c'

def Bears (line before : List Char) (c : Command) : Prop :=
  ∃ comment, line = before ++ '#' :: comment ∧ '#' ∉ before ∧ FirstCommand comment c

def IsInline (line : List Char) (rule : String) : Prop :=
  (rule = "all" ∧ "# noqa".toList <:+: line) ∨
    ∃ before c, Bears line before c ∧ (∃ ch ∈ before, Text.isBlank ch = false) ∧
      c.action = .disable ∧ rule ∈ c.rules

def IsBlock (action : Action) (line : List Char) (rule : String) : Prop :=
  ∃ before c, Bears line before c ∧ (∀ ch ∈ before, Text.isBlank ch = true) ∧
    c.action = action ∧ rule ∈ c.rules

def Ends (line : List Char) (rule : String) : Prop :=
  IsBlock .enable line rule ∨ IsBlock .enable line "all"

/-! ## Commands -/

private theorem takeWhile_names {names rest : List Char}
    (hn : ∀ ch ∈ names, isRuleNameChar ch = true) (hr : ∀ ch ∈ rest.head?, isRuleNameChar ch = false) :
    (names ++ rest).takeWhile isRuleNameChar = names := by
  rw [List.takeWhile_append_of_pos hn]
  cases rest with
  | nil => simp
  | cons ch rest => simp [hr ch (by simp)]

theorem namedRules_sign (names rest : List Char) (hn : ∀ ch ∈ names, isRuleNameChar ch = true)
    (hr : ∀ ch ∈ rest.head?, isRuleNameChar ch = false) :
    namedRules ('=' :: (names ++ rest)) = rulesOf names := by
  simp only [namedRules, rulesOf, takeWhile_names hn hr]

theorem namedRules_plain (names rest : List Char) (hn : ∀ ch ∈ names, isRuleNameChar ch = true)
    (hr : ∀ ch ∈ rest.head?, isRuleNameChar ch = false) (he : (names ++ rest).head? ≠ some '=') :
    namedRules (names ++ rest) = rulesOf names := by
  unfold namedRules rulesOf
  split
  · rename_i more h
    exact absurd (by rw [h]; rfl) he
  · rw [takeWhile_names hn hr]

private theorem dropWhile_head (s : List Char) :
    ∀ ch ∈ (s.dropWhile isRuleNameChar).head?, isRuleNameChar ch = false := by
  intro ch hch
  have h := List.head?_dropWhile_not isRuleNameChar s
  simpa [Option.mem_def.mp hch] using h

/-- What stands after the word of a command splits into a sign, the names and the rest. -/
theorem exists_names (s : List Char) :
    ∃ sign names rest, s = sign ++ names ++ rest ∧
      (sign = ['='] ∨ sign = [] ∧ (names ++ rest).head? ≠ some '=') ∧
      (∀ ch ∈ names, isRuleNameChar ch = true) ∧
      (∀ ch ∈ rest.head?, isRuleNameChar ch = false) ∧ namedRules s = rulesOf names := by
  have hall (s : List Char) : ∀ ch ∈ s.takeWhile isRuleNameChar, isRuleNameChar ch = true :=
    fun ch hch => List.all_eq_true.mp List.all_takeWhile ch hch
  by_cases hs : ∃ more, s = '=' :: more
  · obtain ⟨more, rfl⟩ := hs
    refine ⟨['='], more.takeWhile isRuleNameChar, more.dropWhile isRuleNameChar, by simp,
      Or.inl rfl, hall more, dropWhile_head more, ?_⟩
    simpa using namedRules_sign _ _ (hall more) (dropWhile_head more)
  · have he : (s.takeWhile isRuleNameChar ++ s.dropWhile isRuleNameChar).head? ≠ some '=' := by
      rw [List.takeWhile_append_dropWhile]
      intro h
      exact hs (List.head?_eq_some_iff.mp h)
    refine ⟨[], s.takeWhile isRuleNameChar, s.dropWhile isRuleNameChar, by simp,
      Or.inr ⟨rfl, he⟩, hall s, dropWhile_head s, ?_⟩
    simpa using namedRules_plain _ _ (hall s) (dropWhile_head s) he

theorem namedRules_of_parts {sign names rest : List Char}
    (hsign : sign = ['='] ∨ sign = [] ∧ (names ++ rest).head? ≠ some '=')
    (hn : ∀ ch ∈ names, isRuleNameChar ch = true)
    (hr : ∀ ch ∈ rest.head?, isRuleNameChar ch = false) :
    namedRules (sign ++ names ++ rest) = rulesOf names := by
  rcases hsign with rfl | ⟨rfl, he⟩
  · simpa using namedRules_sign names rest hn hr
  · simpa using namedRules_plain names rest hn hr he

private def dropGap : List Char → List Char
  | ' ' :: more => more
  | more => more

private def wordAt (s : List Char) : Option Command :=
  match Text.after? "disable".toList s, Text.after? "enable".toList s with
  | some names, _ => some ⟨.disable, namedRules names⟩
  | none, some names => some ⟨.enable, namedRules names⟩
  | none, none => none

private theorem commandAt_eq (text : List Char) :
    commandAt text = (Text.after? "robocop:".toList text).bind fun rest => wordAt (dropGap rest) :=
  rfl

private theorem eq_gap_append (s : List Char) :
    ∃ gap, (gap = [] ∨ gap = [' ']) ∧ s = gap ++ dropGap s := by
  unfold dropGap
  split
  · exact ⟨[' '], Or.inr rfl, rfl⟩
  · exact ⟨[], Or.inl rfl, rfl⟩

private theorem dropGap_word {gap : List Char} (hg : gap = [] ∨ gap = [' ']) (a : Action)
    (s : List Char) : dropGap (gap ++ (a.word ++ s)) = a.word ++ s := by
  rcases hg with rfl | rfl <;> cases a <;> rfl

private theorem wordAt_eq_some_iff {s : List Char} {c : Command} :
    wordAt s = some c ↔ ∃ t, s = c.action.word ++ t ∧ c.rules = namedRules t := by
  constructor
  · intro h
    cases hd : Text.after? "disable".toList s with
    | some names =>
      simp only [wordAt, hd, Option.some.injEq] at h
      subst h
      exact ⟨names, Text.after?_eq_some_iff.mp hd, rfl⟩
    | none =>
      cases he : Text.after? "enable".toList s with
      | some names =>
        simp only [wordAt, hd, he, Option.some.injEq] at h
        subst h
        exact ⟨names, Text.after?_eq_some_iff.mp he, rfl⟩
      | none =>
        simp only [wordAt, hd, he] at h
        cases h
  · rintro ⟨t, rfl, hrules⟩
    obtain ⟨action, rules⟩ := c
    subst hrules
    cases action <;> rfl

theorem commandAt_eq_some_iff {text : List Char} {c : Command} :
    commandAt text = some c ↔ Spells text c := by
  rw [commandAt_eq, Option.bind_eq_some_iff]
  constructor
  · rintro ⟨rest, hrest, hword⟩
    obtain ⟨t, ht, hrules⟩ := wordAt_eq_some_iff.mp hword
    obtain ⟨gap, hg, hgap⟩ := eq_gap_append rest
    obtain ⟨sign, names, tail, rfl, hsign, hn, hr, hnames⟩ := exists_names t
    refine ⟨gap, sign, names, tail, ?_, hg, hsign, hn, hr, hrules.trans hnames⟩
    rw [Text.after?_eq_some_iff.mp hrest, hgap, ht]
    simp
  · rintro ⟨gap, sign, names, rest, rfl, hg, hsign, hn, hr, hrules⟩
    refine ⟨gap ++ (c.action.word ++ (sign ++ names ++ rest)),
      Text.after?_eq_some_iff.mpr (by simp), ?_⟩
    rw [dropGap_word hg]
    exact wordAt_eq_some_iff.mpr ⟨_, rfl, hrules.trans (namedRules_of_parts hsign hn hr).symm⟩

theorem firstCommand_cons_iff {ch : Char} {text : List Char} {c : Command} :
    FirstCommand (ch :: text) c ↔
      Spells (ch :: text) c ∨ (∀ c', ¬ Spells (ch :: text) c') ∧ FirstCommand text c := by
  constructor
  · rintro ⟨before, rest, heq, hc, hfirst⟩
    cases before with
    | nil => exact Or.inl (by simpa [heq] using hc)
    | cons b before =>
      rw [List.cons_append] at heq
      obtain ⟨rfl, htext⟩ := List.cons.inj heq
      refine Or.inr ⟨hfirst [] _ rfl (by simp), before, rest, htext, hc, ?_⟩
      intro before' rest' h hlen
      exact hfirst (ch :: before') rest' (by simp [h]) (by simpa using hlen)
  · rintro (hc | ⟨hno, before, rest, rfl, hc, hfirst⟩)
    · exact ⟨[], _, rfl, hc, by simp⟩
    · refine ⟨ch :: before, rest, rfl, hc, ?_⟩
      intro before' rest' h hlen
      cases before' with
      | nil =>
        rw [List.nil_append] at h
        rwa [← h]
      | cons b before' =>
        exact hfirst before' rest' (List.cons.inj h).2 (by simpa using hlen)

theorem command?_eq_some_iff {text : List Char} {c : Command} :
    command? text = some c ↔ FirstCommand text c := by
  induction text with
  | nil =>
    have hno : ¬ FirstCommand [] c := by
      rintro ⟨before, rest, h, ⟨gap, sign, names, tail, hrest, -⟩, -⟩
      simp [hrest] at h
    simp [command?, hno]
  | cons ch text ih =>
    rw [firstCommand_cons_iff, ← ih, command?]
    cases h : commandAt (ch :: text) with
    | some d =>
      have hs := commandAt_eq_some_iff.mp h
      rw [← commandAt_eq_some_iff, h]
      simp only [Option.some_or]
      exact ⟨Or.inl, fun h' => h'.elim id fun h' => absurd hs (h'.1 d)⟩
    | none =>
      have hno : ∀ c', ¬ Spells (ch :: text) c' := by
        intro c' hc'
        rw [← commandAt_eq_some_iff, h] at hc'
        cases hc'
      simp [hno]

def bearing? (line : List Char) : Option (List Char × Command) :=
  match Text.cutAt '#' line with
  | (_, none) => none
  | (before, some comment) => (command? comment).map (before, ·)

theorem bearing?_eq_some_iff {line before : List Char} {c : Command} :
    bearing? line = some (before, c) ↔ Bears line before c := by
  constructor
  · intro h
    unfold bearing? at h
    split at h
    · cases h
    · rename_i before' comment hcut
      obtain ⟨d, hd, heq⟩ := Option.map_eq_some_iff.mp h
      cases heq
      obtain ⟨hline, hb⟩ := Text.cutAt_eq_some_iff.mp hcut
      exact ⟨comment, hline, hb, command?_eq_some_iff.mp hd⟩
  · rintro ⟨comment, hline, hb, hc⟩
    have hcut := Text.cutAt_eq_some_iff.mpr ⟨hline, hb⟩
    simp only [bearing?, hcut, command?_eq_some_iff.mpr hc, Option.map_some]

theorem isInline_iff (line : List Char) (rule : String) :
    IsInline line rule ↔ (rule = "all" ∧ Text.has "# noqa".toList line = true) ∨
      ∃ p ∈ bearing? line, Text.isBlankText p.1 = false ∧ p.2.action = .disable ∧ rule ∈ p.2.rules := by
  have hblank (s : List Char) : Text.isBlankText s = false ↔ ∃ ch ∈ s, Text.isBlank ch = false := by
    simp [Text.isBlankText]
  simp only [IsInline, Text.has_iff, hblank, Prod.exists, Option.mem_def, bearing?_eq_some_iff]

theorem isBlock_iff (action : Action) (line : List Char) (rule : String) :
    IsBlock action line rule ↔
      ∃ p ∈ bearing? line, Text.isBlankText p.1 = true ∧ p.2.action = action ∧ rule ∈ p.2.rules := by
  simp only [IsBlock, Text.isBlankText_iff, Prod.exists, Option.mem_def, bearing?_eq_some_iff]

instance (line : List Char) (rule : String) : Decidable (IsInline line rule) :=
  decidable_of_iff _ (isInline_iff line rule).symm

instance (action : Action) (line : List Char) (rule : String) :
    Decidable (IsBlock action line rule) :=
  decidable_of_iff _ (isBlock_iff action line rule).symm

instance (line : List Char) (rule : String) : Decidable (Ends line rule) :=
  inferInstanceAs (Decidable (_ ∨ _))

end SuiteLint.Disabler
