import Mathlib.Algebra.Order.Field.Rat
import Mathlib.Tactic.Ring
import SuiteLint.Proofs.CommonRuns
import SuiteLint.Proofs.SharedTags

/-!
# Names that look alike

A name that does not exist is compared with the known ones by two forms: its words in order, and the name
without hyphens and underscores. A word is closer to itself than to any other text, so it is among the
best.
-/

namespace SuiteLint

namespace Text

/-! ## Likeness -/

/-- The matched characters of one text out of those of both; a half for equal texts. -/
def Likeness.ratio (l : Likeness) : ℚ := l.matched / l.total

private theorem Likeness.less_iff {l m : Likeness} (hl : 0 < l.total) (hm : 0 < m.total) :
    l.less m = true ↔ l.ratio < m.ratio := by
  have hl' : (0 : ℚ) < l.total := Nat.cast_pos.mpr hl
  have hm' : (0 : ℚ) < m.total := Nat.cast_pos.mpr hm
  rw [ratio, ratio, div_lt_div_iff₀ hl' hm', less, decide_eq_true_eq, ← Nat.cast_mul, ← Nat.cast_mul,
    Nat.cast_lt]

def closer (x y : Likeness × String) : Bool :=
  decide (y.1.ratio < x.1.ratio ∨ y.1.ratio = x.1.ratio ∧ y.2 ≤ x.2)

theorem betterMatch_eq_closer {x y : Likeness × String} (hx : 0 < x.1.total) (hy : 0 < y.1.total) :
    betterMatch x y = closer x y := by
  rw [Bool.eq_iff_iff, closer, decide_eq_true_eq, betterMatch, Bool.or_eq_true, Bool.and_eq_true,
    Bool.not_eq_true', Bool.not_eq_true', ← Bool.not_eq_true, Likeness.less_iff hy hx,
    Likeness.less_iff hx hy, decide_eq_false_iff_not, String.not_lt, not_lt]
  constructor
  · rintro (hlt | ⟨hle, htext⟩)
    · exact Or.inl hlt
    · exact hle.lt_or_eq.imp id fun heq => ⟨heq, htext⟩
  · exact Or.imp id fun ⟨heq, htext⟩ => ⟨heq.le, htext⟩

theorem closer_trans (x y z : Likeness × String) (hxy : closer x y = true) (hyz : closer y z = true) :
    closer x z = true := by
  rw [closer, decide_eq_true_eq] at *
  rcases hxy with hxy | ⟨hxy, htext⟩
  · rcases hyz with hyz | ⟨hyz, -⟩
    · exact Or.inl (hyz.trans hxy)
    · exact Or.inl (hyz.trans_lt hxy)
  · rcases hyz with hyz | ⟨hyz, htext'⟩
    · exact Or.inl (hyz.trans_eq hxy)
    · exact Or.inr ⟨hyz.trans hxy, String.le_trans htext' htext⟩

private theorem closer_total (x y : Likeness × String) : (closer x y || closer y x) = true := by
  rw [Bool.or_eq_true, closer, closer, decide_eq_true_eq, decide_eq_true_eq]
  rcases lt_trichotomy x.1.ratio y.1.ratio with hlt | heq | hlt
  · exact Or.inr (Or.inl hlt)
  · exact (String.le_total y.2 x.2).imp (fun h => Or.inr ⟨heq.symm, h⟩) fun h => Or.inr ⟨heq, h⟩
  · exact Or.inl (Or.inl hlt)

theorem pairwise_mergeSort_betterMatch {scored : List (Likeness × String)}
    (hpos : ∀ x ∈ scored, 0 < x.1.total) :
    (scored.mergeSort betterMatch).Pairwise fun x y => y.1.ratio ≤ x.1.ratio := by
  have hsame : scored.mergeSort betterMatch = scored.mergeSort closer := by
    have hmap := List.map_mergeSort (r := betterMatch) (s := closer) (f := id) (l := scored)
      fun x hx y hy => betterMatch_eq_closer (hpos x hx) (hpos y hy)
    rwa [List.map_id, List.map_id] at hmap
  rw [hsame]
  refine (List.pairwise_mergeSort closer_trans closer_total scored).imp fun h => ?_
  rw [closer, decide_eq_true_eq] at h
  exact h.elim le_of_lt fun heq => heq.1.le

/-! ## Words and themselves -/

section

variable {word : List Char} (hshort : word.length < 200)
include hshort

theorem likeness_of_short (s : List Char) :
    likeness word s = ⟨matched [] s word, s.length + word.length⟩ := by
  rw [likeness, popular, if_pos hshort]

@[simp] theorem likeness_self : likeness word word = ⟨word.length, word.length + word.length⟩ := by
  rw [likeness_of_short hshort, matched_self]

theorem eq_of_ratio_le (hword : word ≠ []) {s : List Char}
    (h : (likeness word word).ratio ≤ (likeness word s).ratio) : s = word := by
  have hpos : 0 < word.length := List.length_pos_iff.mpr hword
  have hword' : (0 : ℚ) < ((word.length + word.length : ℕ) : ℚ) := Nat.cast_pos.mpr (by omega)
  have hs' : (0 : ℚ) < ((s.length + word.length : ℕ) : ℚ) := Nat.cast_pos.mpr (by omega)
  rw [likeness_self hshort, likeness_of_short hshort, Likeness.ratio, Likeness.ratio,
    div_le_div_iff₀ hword' hs', ← Nat.cast_mul, ← Nat.cast_mul, Nat.cast_le] at h
  obtain ⟨hs, hw, heq⟩ := matched_spec s word
  have hfull : s.length + word.length ≤ 2 * matched [] s word := by
    refine Nat.le_of_mul_le_mul_left ?_ hpos
    calc word.length * (s.length + word.length)
        ≤ matched [] s word * (word.length + word.length) := h
      _ = word.length * (2 * matched [] s word) := by ring
  exact heq (by omega) (by omega)

end

def closeMatches (word : String) (texts : List String) : List (Likeness × String) :=
  (texts.map fun t => (likeness word.toList t.toList, t)).filter fun s =>
    s.1.reaches (requiredLikeness word.toList)

@[simp] theorem mem_closeMatches {word : String} {texts : List String} {x : Likeness × String} :
    x ∈ closeMatches word texts ↔ x.2 ∈ texts ∧ x.1 = likeness word.toList x.2.toList ∧
      x.1.reaches (requiredLikeness word.toList) = true := by
  rw [closeMatches, List.mem_filter, List.mem_map]
  constructor
  · rintro ⟨⟨t, ht, rfl⟩, hreaches⟩
    exact ⟨ht, rfl, hreaches⟩
  · rintro ⟨ht, hlike, hreaches⟩
    exact ⟨⟨x.2, ht, Prod.ext hlike.symm rfl⟩, hreaches⟩

theorem closeTo_eq {word : String} (hword : word ≠ "") (texts : List String) (most : Nat) :
    closeTo word texts most = (((closeMatches word texts).mergeSort betterMatch).take most).map (·.2) :=
  if_neg (by simpa using hword)

theorem mem_closeTo {word t : String} {texts : List String} {most : Nat} (h : t ∈ closeTo word texts most) :
    t ∈ texts ∧ (likeness word.toList t.toList).reaches (requiredLikeness word.toList) = true := by
  by_cases hword : word = ""
  · simp [closeTo, hword] at h
  · rw [closeTo_eq hword] at h
    obtain ⟨x, hx, rfl⟩ := List.mem_map.mp h
    obtain ⟨ht, hlike, hreaches⟩ := mem_closeMatches.mp (List.mem_mergeSort.mp (List.mem_of_mem_take hx))
    rw [hlike] at hreaches
    exact ⟨ht, hreaches⟩

/-- Of the texts that are close to a short word, the word itself is the best match. -/
theorem exists_mergeSort_eq_cons {word : String} (hword : word ≠ "") (hshort : word.length < 200)
    {texts : List String} (hmem : word ∈ texts) :
    ∃ best rest, (closeMatches word texts).mergeSort betterMatch = best :: rest ∧ best.2 = word := by
  have hshort' : word.toList.length < 200 := by rwa [String.length_toList]
  have hchars : word.toList ≠ [] := fun hnil => hword (String.toList_eq_nil_iff.mp hnil)
  have hreaches : (likeness word.toList word.toList).reaches (requiredLikeness word.toList) = true := by
    rw [likeness_self hshort', Likeness.reaches, decide_eq_true_eq, requiredLikeness, ← Nat.two_mul]
    exact Nat.mul_le_mul_left _ (by omega)
  have hself : (likeness word.toList word.toList, word) ∈
      (closeMatches word texts).mergeSort betterMatch :=
    List.mem_mergeSort.mpr (mem_closeMatches.mpr ⟨hmem, rfl, hreaches⟩)
  have hpos : ∀ x ∈ closeMatches word texts, 0 < x.1.total := by
    intro x hx
    rw [(mem_closeMatches.mp hx).2.1]
    exact Nat.add_pos_right _ (List.length_pos_iff.mpr hchars)
  have hsorted := pairwise_mergeSort_betterMatch hpos
  cases hbest : (closeMatches word texts).mergeSort betterMatch with
  | nil =>
    rw [hbest] at hself
    cases hself
  | cons best rest =>
    have hlike := (mem_closeMatches.mp (List.mem_mergeSort.mp (hbest ▸ List.mem_cons_self))).2.1
    rw [hbest] at hsorted hself
    have hratio : (likeness word.toList word.toList).ratio ≤ best.1.ratio := by
      rcases List.mem_cons.mp hself with rfl | hrest
      · exact le_rfl
      · have hfirst := List.rel_of_pairwise_cons hsorted hrest
        exact hfirst
    rw [hlike] at hratio
    exact ⟨best, rest, rfl, String.toList_inj.mp (eq_of_ratio_le hshort' hchars hratio)⟩

private theorem mem_closeTo_self {word : String} (hword : word ≠ "") (hshort : word.length < 200)
    {texts : List String} (hmem : word ∈ texts) (most : Nat) : word ∈ closeTo word texts (most + 1) := by
  obtain ⟨best, rest, hbest, hname⟩ := exists_mergeSort_eq_cons hword hshort hmem
  rw [closeTo_eq hword, hbest, List.take_succ_cons, List.map_cons, hname]
  exact List.mem_cons_self

end Text

namespace Suggestion

/-! ## Forms of names -/

def bothForms (name : String) : List String := [(forms name).1, (forms name).2]

/-- Words do not take more room than the name, even with a blank behind each of them. -/
theorem sum_wordsFrom_le (inBreak : Bool) (s : List Char) :
    ((wordsFrom inBreak s).map fun word => word.length + 1).sum ≤ s.length + 1 := by
  induction s generalizing inBreak with
  | nil => exact Nat.le_refl _
  | cons c s ih =>
    have hbreak := ih true
    have hword := ih false
    rw [wordsFrom, List.length_cons]
    split
    · split
      · omega
      · rw [List.map_cons, List.sum_cons, List.length_nil]
        omega
    · split
      · simp
      · next word words hwords =>
        rw [hwords, List.map_cons, List.sum_cons] at hword
        rw [List.map_cons, List.sum_cons, List.length_cons]
        omega

theorem length_intercalate_blank {words : List (List Char)} (h : words ≠ []) :
    ([' '].intercalate words).length + 1 = (words.map fun word => word.length + 1).sum := by
  induction words with
  | nil => exact absurd rfl h
  | cons word words ih =>
    cases words with
    | nil => simp
    | cons next words =>
      have hmore := ih (List.cons_ne_nil _ _)
      rw [List.intercalate_cons_cons, List.map_cons, List.sum_cons, ← hmore, List.length_append,
        List.length_append, List.length_singleton]
      omega

private theorem wordsFrom_ne_nil (inBreak : Bool) (s : List Char) : wordsFrom inBreak s ≠ [] := by
  fun_induction wordsFrom inBreak s <;> simp_all

theorem perm_sortTexts (texts : List String) : (Text.sortTexts texts).Perm texts :=
  List.mergeSort_perm texts _

theorem forms_fst_eq_of_perm {name other : String}
    (h : (wordsFrom false name.toList).Perm (wordsFrom false other.toList)) :
    (forms name).1 = (forms other).1 := by
  have hsorted : Text.sortTexts ((wordsFrom false name.toList).map String.ofList) =
      Text.sortTexts ((wordsFrom false other.toList).map String.ofList) := by
    refine List.Perm.eq_of_pairwise (fun a b _ _ => String.le_antisymm) (Text.pairwise_sortTexts _)
      (Text.pairwise_sortTexts _) ?_
    exact (perm_sortTexts _).trans ((h.map _).trans (perm_sortTexts _).symm)
  rw [forms, forms, hsorted]

theorem length_forms_fst (name : String) :
    (forms name).1.length + 1 = ((wordsFrom false name.toList).map fun word => word.length + 1).sum := by
  have hperm : ((Text.sortTexts ((wordsFrom false name.toList).map String.ofList)).map String.toList).Perm
      (wordsFrom false name.toList) := by
    have hwords := (perm_sortTexts ((wordsFrom false name.toList).map String.ofList)).map String.toList
    simpa [Function.comp_def] using hwords
  have hsome : (Text.sortTexts ((wordsFrom false name.toList).map String.ofList)).map String.toList ≠ [] :=
    fun hnil => wordsFrom_ne_nil false name.toList (List.nil_perm.mp (hnil ▸ hperm))
  rw [← (hperm.map _).sum_nat, ← length_intercalate_blank hsome, ← String.length_toList, forms,
    String.toList_intercalate]
  rfl

theorem length_le_of_mem_bothForms {form name : String} (h : form ∈ bothForms name) :
    form.length ≤ name.length := by
  rw [bothForms, List.mem_pair] at h
  rcases h with rfl | rfl
  · have hlength := length_forms_fst name
    have hsum := sum_wordsFrom_le false name.toList
    rw [String.length_toList] at hsum
    omega
  · rw [forms, String.length_ofList, ← String.length_toList (s := name)]
    exact Nat.le_trans (List.length_filter_le _ _) (List.length_filter_le _ _)

/-! ## The table of forms -/

theorem getD_lookup_addForm (table : List (String × List String)) (form name key : String) :
    ((addForm table form name).lookup key).getD [] =
      (table.lookup key).getD [] ++ if key = form then [name] else [] := by
  rw [addForm, Lookup.lookup_put (· ++ [name]) [name]]
  by_cases hkey : key = form
  · rw [if_pos hkey, if_pos hkey, hkey]
    cases table.lookup form <;> rfl
  · rw [if_neg hkey, if_neg hkey, List.append_nil]

@[simp] theorem mem_keys_addForm (table : List (String × List String)) (form name key : String) :
    key ∈ (addForm table form name).map (·.1) ↔ key ∈ table.map (·.1) ∨ key = form := by
  rw [addForm]
  split
  · next hsome =>
    have hkeys : (table.map fun entry => if entry.1 = form then (form, entry.2 ++ [name]) else entry).map
        (·.1) = table.map (·.1) := by
      rw [List.map_map]
      apply List.map_congr_left
      intro entry _
      by_cases hentry : entry.1 = form <;> simp [hentry]
    have hform : form ∈ table.map (·.1) := by
      obtain ⟨entry, hentry, heq⟩ := List.lookup_isSome_iff.mp hsome
      exact List.mem_map.mpr ⟨entry, hentry, (eq_of_beq heq).symm⟩
    rw [hkeys]
    refine ⟨Or.inl, ?_⟩
    rintro (hkey | rfl)
    · exact hkey
    · exact hform
  · rw [List.map_append, List.mem_append, List.map_singleton, List.mem_singleton]

def addName (table : List (String × List String)) (name : String) : List (String × List String) :=
  addForm (addForm table (forms name).1 name) (forms name).2 name

@[simp] theorem mem_lookup_addName {table : List (String × List String)} {other form name : String} :
    name ∈ ((addName table other).lookup form).getD [] ↔
      name ∈ (table.lookup form).getD [] ∨ name = other ∧ form ∈ bothForms name := by
  have hput (key : String) : name ∈ (if form = key then [other] else []) ↔ form = key ∧ name = other := by
    split
    · next hkey => rw [List.mem_singleton, and_iff_right hkey]
    · next hkey => exact iff_of_false List.not_mem_nil fun h => hkey h.1
  rw [addName, getD_lookup_addForm, getD_lookup_addForm, List.mem_append, List.mem_append, hput, hput,
    or_assoc, ← or_and_right, and_comm, bothForms, List.mem_pair]
  refine or_congr Iff.rfl (and_congr_right ?_)
  rintro rfl
  exact Iff.rfl

private theorem mem_keys_addName {table : List (String × List String)} {other form : String} :
    form ∈ (addName table other).map (·.1) ↔ form ∈ table.map (·.1) ∨ form ∈ bothForms other := by
  rw [addName, mem_keys_addForm, mem_keys_addForm, or_assoc, bothForms, List.mem_pair]

@[simp] theorem mem_lookup_formTable {names : List String} {form name : String} :
    name ∈ ((formTable names).lookup form).getD [] ↔ name ∈ names ∧ form ∈ bothForms name := by
  have hadded (table : List (String × List String)) :
      name ∈ ((names.foldl addName table).lookup form).getD [] ↔
        name ∈ (table.lookup form).getD [] ∨ name ∈ names ∧ form ∈ bothForms name := by
    induction names generalizing table with
    | nil => simp
    | cons other names ih =>
      rw [List.foldl_cons, ih, mem_lookup_addName, List.mem_cons, or_and_right, or_assoc]
  exact (hadded []).trans (or_iff_right List.not_mem_nil)

@[simp] theorem mem_keys_formTable {names : List String} {form : String} :
    form ∈ (formTable names).map (·.1) ↔ ∃ name ∈ names, form ∈ bothForms name := by
  have hadded (table : List (String × List String)) :
      form ∈ (names.foldl addName table).map (·.1) ↔
        form ∈ table.map (·.1) ∨ ∃ name ∈ names, form ∈ bothForms name := by
    induction names generalizing table with
    | nil => simp
    | cons other names ih => rw [List.foldl_cons, ih, mem_keys_addName, List.exists_mem_cons_iff, or_assoc]
  exact (hadded []).trans (or_iff_right List.not_mem_nil)

/-! ## The names of a hint -/

def SharesForm (name other : String) : Prop := ∃ form ∈ bothForms name, form ≠ "" ∧ form ∈ bothForms other

def LooksLike (other name : String) : Prop :=
  ∃ form ∈ bothForms other, ∃ own ∈ bothForms name,
    (Text.likeness own.toList form.toList).reaches (Text.requiredLikeness own.toList) = true

@[simp] theorem mem_similarNames {name other : String} {names : List String} :
    other ∈ similarNames name names ↔ other ∈ names ∧ ∃ form ∈ bothForms other, ∃ own ∈ bothForms name,
      form ∈ Text.closeTo own ((formTable names).map (·.1)) 5 := by
  rw [similarNames, Text.mem_dropRepeated, Text.sortTexts, List.mem_mergeSort, List.mem_flatMap]
  have hclose (form : String) :
      form ∈ Text.closeTo (forms name).1 ((formTable names).map (·.1)) 5 ++
          Text.closeTo (forms name).2 ((formTable names).map (·.1)) 5 ↔
        ∃ own ∈ bothForms name, form ∈ Text.closeTo own ((formTable names).map (·.1)) 5 := by
    simp only [bothForms, List.mem_append, List.exists_mem_cons_iff, List.not_mem_nil, false_and,
      exists_false, or_false]
  simp only [hclose, mem_lookup_formTable]
  constructor
  · rintro ⟨form, hown, hother, hform⟩
    exact ⟨hother, form, hform, hown⟩
  · rintro ⟨hother, form, hform, hown⟩
    exact ⟨form, hown, hother, hform⟩

private theorem mem_similarNames_of_sharesForm {name other : String} (hshort : name.length < 200)
    {names : List String} (hmem : other ∈ names) (h : SharesForm name other) :
    other ∈ similarNames name names := by
  obtain ⟨form, hname, hform, hother⟩ := h
  have hlength : form.length < 200 := Nat.lt_of_le_of_lt (length_le_of_mem_bothForms hname) hshort
  have hkey : form ∈ (formTable names).map (·.1) := mem_keys_formTable.mpr ⟨other, hmem, hother⟩
  exact mem_similarNames.mpr ⟨hmem, form, hother, form, hname, Text.mem_closeTo_self hform hlength hkey 4⟩

/-- The hint "Did you mean" on a short name lists names in strict order, line by line. They are known names
that look like it, and among them are all known names that share a form with it. -/
theorem hint_lists_similar_names (name : String) (hshort : name.length < 200) (names : List String) :
    hint name names = (if similarNames name names = [] then ""
      else " Did you mean:\n" ++ "\n".intercalate ((similarNames name names).map ("    " ++ ·))) ∧
    (similarNames name names).Pairwise (· < ·) ∧
    (∀ other ∈ similarNames name names, other ∈ names ∧ LooksLike other name) ∧
    ∀ other ∈ names, SharesForm name other → other ∈ similarNames name names := by
  refine ⟨?_, Text.pairwise_dropRepeated (Text.pairwise_sortTexts _), fun other hother => ?_,
    fun other hmem hshares => mem_similarNames_of_sharesForm hshort hmem hshares⟩
  · rw [hint]
    split
    · next hnone => rw [if_pos hnone]
    · next hsome => rw [if_neg hsome]
  · obtain ⟨hmem, form, hform, own, hown, hclose⟩ := mem_similarNames.mp hother
    exact ⟨hmem, form, hform, own, hown, (Text.mem_closeTo hclose).2⟩

theorem hint_lists_similar_names_isThis :
    "is-this".length < 200 ∧ SharesForm "is-this" "this is" ∧ SharesForm "is-this" "_isthis" ∧
      "this is" ∈ similarNames "is-this" ["some", "this is", "_isthis", "this is"] ∧
      "_isthis" ∈ similarNames "is-this" ["some", "this is", "_isthis", "this is"] ∧
      (similarNames "is-this" ["some", "this is", "_isthis", "this is"]).Pairwise (· < ·) ∧
      hint "is-this" ["some", "this is", "_isthis", "this is"] = " Did you mean:\n" ++ "\n".intercalate
        ((similarNames "is-this" ["some", "this is", "_isthis", "this is"]).map ("    " ++ ·)) := by
  have hwords : SharesForm "is-this" "this is" := by
    have hlength := length_forms_fst "is-this"
    have hsame : (forms "is-this").1 = (forms "this is").1 := forms_fst_eq_of_perm (by decide)
    refine ⟨(forms "is-this").1, List.mem_cons_self, fun hempty => ?_, hsame ▸ List.mem_cons_self⟩
    rw [hempty] at hlength
    exact absurd hlength (by decide)
  have hjoined : SharesForm "is-this" "_isthis" :=
    ⟨(forms "is-this").2, by simp [bothForms], by decide, List.mem_cons_of_mem _ (by decide)⟩
  obtain ⟨hhint, hsorted, -, hall⟩ :=
    hint_lists_similar_names "is-this" (by decide) ["some", "this is", "_isthis", "this is"]
  have hlisted := hall "this is" (by simp) hwords
  exact ⟨by decide, hwords, hjoined, hlisted, hall _ (by simp) hjoined, hsorted,
    hhint.trans (if_neg (List.ne_nil_of_mem hlisted))⟩

end Suggestion

end SuiteLint
