import Mathlib.Data.List.Basic
import Mathlib.Data.List.Induction
import SuiteLint.Check.Duplicate

/-!
# Groups of elements with one key

Elements are put into groups by their keys, and each but the first of a group is paired with the first.
Up to order, these are the elements that have an earlier one with the same key, each once.
-/

namespace SuiteLint

variable {α β : Type}

def laterRepeats (like : α → α → Bool) (before : List α) : List α → List (α × α)
  | [] => []
  | x :: xs =>
    ((before.find? (like · x)).map (·, x)).toList ++ laterRepeats like (before ++ [x]) xs

private theorem laterRepeats_append (like : α → α → Bool) (before xs ys : List α) :
    laterRepeats like before (xs ++ ys) =
      laterRepeats like before xs ++ laterRepeats like (before ++ xs) ys := by
  induction xs generalizing before with
  | nil => simp [laterRepeats]
  | cons x xs ih => simp [laterRepeats, ih]

namespace Check.Duplicate

@[simp] theorem firsts_map (key : β → String) (f : α → β) (seen : List String) (xs : List α) :
    firsts key seen (xs.map f) = (firsts (fun x => key (f x)) seen xs).map f := by
  induction xs generalizing seen with
  | nil => rfl
  | cons x xs ih =>
    rw [List.map_cons, firsts, firsts]
    split
    · exact ih seen
    · rw [List.map_cons, ih]

@[simp] theorem repeats_map (key : β → String) (f : α → β) (xs : List α) :
    repeats key (xs.map f) = (repeats (fun x => key (f x)) xs).map (Prod.map f f) := by
  rw [repeats, repeats, firsts_map, List.flatMap_map, List.map_flatMap]
  apply List.flatMap_congr
  intro x _
  rw [List.filter_map, ← List.map_drop, List.map_map, List.map_map]
  rfl

theorem mem_firsts {key : α → String} {seen : List String} {xs : List α} {x : α}
    (h : x ∈ firsts key seen xs) : x ∈ xs ∧ key x ∉ seen := by
  induction xs generalizing seen with
  | nil => cases h
  | cons y ys ih =>
    rw [firsts] at h
    split at h
    · obtain ⟨hmem, hkey⟩ := ih h
      exact ⟨List.mem_cons_of_mem y hmem, hkey⟩
    · next hnew =>
      rcases List.mem_cons.mp h with rfl | h
      · exact ⟨List.mem_cons_self, by simpa using hnew⟩
      · obtain ⟨hmem, hkey⟩ := ih h
        exact ⟨List.mem_cons_of_mem y hmem, fun hseen => hkey (List.mem_cons_of_mem _ hseen)⟩

/-- Of the elements with a key the first one leads a group, and no other one does. -/
theorem exists_split_firsts {key : α → String} {seen : List String} {xs : List α} {k : String} {f : α}
    (hseen : k ∉ seen) (h : xs.find? (key · = k) = some f) :
    ∃ front back, firsts key seen xs = front ++ f :: back ∧ (∀ x ∈ front, key x ≠ k) ∧
      ∀ x ∈ back, key x ≠ k := by
  induction xs generalizing seen with
  | nil => cases h
  | cons y ys ih =>
    rw [firsts]
    by_cases hy : key y = k
    · have hfirst : f = y := by simpa [hy, eq_comm] using h
      subst hfirst hy
      refine ⟨[], firsts key (key f :: seen) ys, by simp [hseen], by simp, fun x hx heq => ?_⟩
      exact (mem_firsts hx).2 (heq ▸ List.mem_cons_self)
    · replace h : ys.find? (key · = k) = some f := by simpa [hy] using h
      split
      · exact ih hseen h
      · have hseen' : k ∉ key y :: seen := by
          rw [List.mem_cons, not_or]
          exact ⟨Ne.symm hy, hseen⟩
        obtain ⟨front, back, hsplit, hfront, hback⟩ := ih hseen' h
        refine ⟨y :: front, back, by rw [hsplit]; rfl, ?_, hback⟩
        rw [List.forall_mem_cons]
        exact ⟨hy, hfront⟩

theorem firsts_concat (key : α → String) (seen : List String) (xs : List α) (x : α) :
    firsts key seen (xs ++ [x]) =
      firsts key seen xs ++ if key x ∈ seen ∨ ∃ u ∈ xs, key u = key x then [] else [x] := by
  induction xs generalizing seen with
  | nil => by_cases h : key x ∈ seen <;> simp [firsts, h]
  | cons y ys ih =>
    rw [List.cons_append, firsts, firsts]
    split
    · next hy =>
      rw [ih]
      congr 2
      rw [List.contains_iff_mem] at hy
      rw [eq_iff_iff, List.exists_mem_cons_iff]
      constructor
      · rintro (h | h)
        · exact Or.inl h
        · exact Or.inr (Or.inr h)
      · rintro (h | h | h)
        · exact Or.inl h
        · exact Or.inl (h ▸ hy)
        · exact Or.inr h
    · rw [ih, List.cons_append]
      congr 3
      rw [eq_iff_iff, List.mem_cons, List.exists_mem_cons_iff, or_left_comm, or_assoc,
        eq_comm (a := key x)]

def followers (key : α → String) (xs : List α) (f : α) : List (α × α) :=
  ((xs.filter (key · = key f)).drop 1).map (f, ·)

private theorem repeats_eq (key : α → String) (xs : List α) :
    repeats key xs = (firsts key [] xs).flatMap (followers key xs) := rfl

private theorem followers_concat_of_ne {key : α → String} {x f : α} (h : key f ≠ key x) (xs : List α) :
    followers key (xs ++ [x]) f = followers key xs f := by
  simp [followers, Ne.symm h]

theorem followers_concat_of_eq {key : α → String} {x f : α} (h : key f = key x) {xs : List α}
    (hmem : f ∈ xs) : followers key (xs ++ [x]) f = followers key xs f ++ [(f, x)] := by
  have hone : 1 ≤ (xs.filter (key · = key f)).length :=
    List.length_pos_of_mem (List.mem_filter.mpr ⟨hmem, decide_eq_true rfl⟩)
  have hlast : [x].filter (key · = key f) = [x] := by simp [h]
  rw [followers, followers, List.filter_append, hlast, List.drop_append_of_le_length hone,
    List.map_append]
  rfl

theorem repeats_concat (key : α → String) (xs : List α) (x : α) :
    (repeats key (xs ++ [x])).Perm
      (repeats key xs ++ ((xs.find? (key · = key x)).map (·, x)).toList) := by
  rw [repeats_eq, repeats_eq, firsts_concat]
  cases hfind : xs.find? (key · = key x) with
  | none =>
    have hnew : ∀ u ∈ xs, key u ≠ key x := by simpa using hfind
    have hold : (firsts key [] xs).flatMap (followers key (xs ++ [x])) =
        (firsts key [] xs).flatMap (followers key xs) :=
      List.flatMap_congr fun f hf => followers_concat_of_ne (hnew f (mem_firsts hf).1) xs
    have halone : followers key (xs ++ [x]) x = [] := by
      have hnone : xs.filter (key · = key x) = [] := by simpa using hnew
      simp [followers, hnone]
    rw [if_neg (by simpa using hnew), List.flatMap_append, hold, List.flatMap_singleton, halone]
    exact List.Perm.refl _
  | some f =>
    have hkey : key f = key x := by simpa using List.find?_some hfind
    have hmem := List.mem_of_find?_eq_some hfind
    obtain ⟨front, back, hsplit, hfront, hback⟩ := exists_split_firsts List.not_mem_nil hfind
    have hsame {part : List α} (hpart : ∀ y ∈ part, key y ≠ key x) :
        part.flatMap (followers key (xs ++ [x])) = part.flatMap (followers key xs) :=
      List.flatMap_congr fun y hy => followers_concat_of_ne (hpart y hy) xs
    rw [if_pos (Or.inr ⟨f, hmem, hkey⟩), List.append_nil, hsplit, List.flatMap_append,
      List.flatMap_append, List.flatMap_cons, List.flatMap_cons, hsame hfront, hsame hback,
      followers_concat_of_eq hkey hmem]
    simp only [List.append_assoc, Option.map_some, Option.toList_some]
    exact (List.perm_append_comm.append_left _).append_left _

/-- What is reported of the groups are the elements that have an earlier one with the same key, each
once and with the first of these. -/
theorem repeats_perm (key : α → String) (xs : List α) :
    (repeats key xs).Perm (laterRepeats (fun u x => key u = key x) [] xs) := by
  induction xs using List.reverseRecOn with
  | nil => exact List.Perm.refl _
  | append_singleton xs x ih =>
    rw [laterRepeats_append]
    refine (repeats_concat key xs x).trans (ih.append ?_)
    simp [laterRepeats]

end Check.Duplicate

end SuiteLint
