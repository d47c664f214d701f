import SuiteLint.Text.Blank
import SuiteLint.Text.Find
import SuiteLint.Text.Sorted

/-!
# Parts of a text, by what they are

The searches and cuts of `SuiteLint.Text`, each with the equation between texts that it decides, and what
a collection of texts holds.
-/

namespace SuiteLint.Text

theorem has_iff (part s : List Char) : has part s = true ↔ part <:+: s := by
  induction s with
  | nil => cases part <;> simp [has, find]
  | cons c rest ih =>
    by_cases h : part.isPrefixOf (c :: rest) = true
    · simp [has, find, h, List.infix_cons_iff, List.isPrefixOf_iff_prefix.mp h]
    · have hn : ¬ part <+: c :: rest := fun hp => h (List.isPrefixOf_iff_prefix.mpr hp)
      rw [List.infix_cons_iff, ← ih]
      simp [has, find, h, hn]

theorem after?_eq_some_iff {part s rest : List Char} :
    after? part s = some rest ↔ s = part ++ rest := by
  unfold after?
  constructor
  · intro h
    split at h
    · rename_i hp
      obtain ⟨t, rfl⟩ := List.isPrefixOf_iff_prefix.mp hp
      simpa using h
    · cases h
  · rintro rfl
    simp

theorem cutAt_eq_some_iff {sep : Char} {s before rest : List Char} :
    cutAt sep s = (before, some rest) ↔ s = before ++ sep :: rest ∧ sep ∉ before := by
  induction s generalizing before with
  | nil => simp [cutAt]
  | cons c s ih =>
    by_cases h : c = sep
    · subst h
      cases before with
      | nil => simp [cutAt]
      | cons b before => simp +contextual [cutAt]
    · cases before with
      | nil => simp [cutAt, h]
      | cons b before =>
        have hs : cutAt sep s = ((cutAt sep s).1, (cutAt sep s).2) := rfl
        simp only [cutAt, h, if_false, Prod.mk.injEq, List.cons.injEq, List.cons_append,
          List.mem_cons, not_or]
        rw [and_assoc, ← Prod.mk.injEq, ← hs, ih]
        constructor
        · rintro ⟨rfl, hb, hm⟩
          exact ⟨⟨rfl, hb⟩, Ne.symm h, hm⟩
        · rintro ⟨⟨rfl, hb⟩, -, hm⟩
          exact ⟨rfl, hb, hm⟩

theorem cutAt_none_iff {sep : Char} {s : List Char} : (cutAt sep s).2 = none ↔ sep ∉ s := by
  induction s with
  | nil => simp [cutAt]
  | cons c s ih =>
    by_cases h : c = sep
    · simp [cutAt, h]
    · simp [cutAt, h, ih, Ne.symm h]

theorem splitAt_of_not_mem {sep : Char} {s : List Char} (h : sep ∉ s) : splitAt sep s = [s] := by
  induction s with
  | nil => rfl
  | cons c s ih =>
    rw [List.mem_cons, not_or] at h
    rw [splitAt, if_neg (Ne.symm h.1), ih h.2]

theorem splitAt_append_cons {sep : Char} {before : List Char} (h : sep ∉ before) (rest : List Char) :
    splitAt sep (before ++ sep :: rest) = before :: splitAt sep rest := by
  induction before with
  | nil => rw [List.nil_append, splitAt, if_pos rfl]
  | cons c before ih =>
    rw [List.mem_cons, not_or] at h
    rw [List.cons_append, splitAt, if_neg (Ne.symm h.1), ih h.2]

@[simp] theorem length_splitAt (sep : Char) (s : List Char) :
    (splitAt sep s).length = s.count sep + 1 := by
  induction s with
  | nil => rfl
  | cons c s ih =>
    rw [splitAt]
    by_cases h : c = sep
    · rw [if_pos h, h, List.count_cons_self, List.length_cons, ih]
    · rw [if_neg h, List.count_cons_of_ne h, ← ih]
      split
      · next hnil => rw [hnil] at ih; simp at ih
      · next piece pieces hpieces => rw [hpieces]; rfl

theorem isBlankText_iff {s : List Char} : isBlankText s = true ↔ ∀ c ∈ s, isBlank c = true := by
  simp [isBlankText]

def blankCodes : List Nat :=
  List.range' 9 5 ++ List.range' 28 5 ++ [133, 160, 5760] ++ List.range' 8192 11 ++
    [8232, 8233, 8239, 8287, 12288]

theorem toNat_mem_blankCodes {c : Char} (h : isBlank c = true) : c.toNat ∈ blankCodes := by
  simp only [isBlank, Bool.or_eq_true, Bool.and_eq_true, decide_eq_true_eq, beq_iff_eq] at h
  simp only [blankCodes, List.mem_append, List.mem_range'_1, List.mem_cons, List.not_mem_nil, or_false]
  grind

theorem trimRight_append {s blank : List Char} (h : ∀ c ∈ blank, isBlank c = true) :
    trimRight (s ++ blank) = trimRight s := by
  have hall : ∀ c ∈ blank.reverse, isBlank c = true := fun c hc => h c (List.mem_reverse.mp hc)
  rw [trimRight, dropEndWhile, List.reverse_append, List.dropWhile_append_of_pos hall, trimRight,
    dropEndWhile]

@[simp] theorem mem_insertText (texts : List String) (new s : String) :
    s ∈ insertText texts new ↔ s ∈ texts ∨ s = new := by
  unfold insertText
  split
  · next h =>
    have hnew : new ∈ texts := List.contains_iff_mem.mp h
    constructor
    · exact Or.inl
    · rintro (hs | rfl)
      · exact hs
      · exact hnew
  · rw [List.mem_append, List.mem_singleton]

theorem nodup_insertText {texts : List String} (h : texts.Nodup) (new : String) :
    (insertText texts new).Nodup := by
  unfold insertText
  split
  · exact h
  · next hnew =>
    refine List.nodup_append.mpr ⟨h, by simp, ?_⟩
    rintro s hs t ht rfl
    exact hnew (List.contains_iff_mem.mpr (List.mem_singleton.mp ht ▸ hs))

end SuiteLint.Text
