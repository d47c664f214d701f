import Mathlib.Data.List.Flatten
import SuiteLint.Check.Finding

/-!
# Gathering findings

A check on each element of a list fails with the first element on which it fails, and else finds what it
finds on the elements one after the other.
-/

namespace SuiteLint

variable {α β : Type}

theorem exists_of_bind_eq_ok {ε α β : Type} {x : Except ε α} {f : α → Except ε β} {b : β}
    (h : (x >>= f) = .ok b) : ∃ a, x = .ok a ∧ f a = .ok b := by
  cases x with
  | error e => simp [bind, Except.bind] at h
  | ok a => exact ⟨a, rfl, h⟩

theorem gather_congr {check check' : α → Except Breakdown (List Finding)} {xs : List α}
    (h : ∀ x ∈ xs, check x = check' x) : gather check xs = gather check' xs := by
  induction xs with
  | nil => rfl
  | cons x xs ih =>
    rw [gather, gather, h x List.mem_cons_self, ih fun y hy => h y (List.mem_cons_of_mem x hy)]

@[simp] theorem gather_map (check : β → Except Breakdown (List Finding)) (f : α → β) (xs : List α) :
    gather check (xs.map f) = gather (fun x => check (f x)) xs := by
  induction xs with
  | nil => rfl
  | cons x xs ih => rw [List.map_cons, gather, gather, ih]

/-- What is found in a list is what is found in its first element, and then in the others. -/
theorem gather_cons_eq_ok_iff {check : α → Except Breakdown (List Finding)} {x : α} {xs : List α}
    {findings : List Finding} : gather check (x :: xs) = .ok findings ↔
      ∃ here more, check x = .ok here ∧ gather check xs = .ok more ∧ here ++ more = findings := by
  rw [gather]
  cases check x with
  | error e => simp [bind, Except.bind]
  | ok here => cases gather check xs <;> simp [bind, Except.bind, pure, Except.pure]

theorem gather_eq_nil_iff {check : α → Except Breakdown (List Finding)} {xs : List α} :
    gather check xs = .ok [] ↔ ∀ x ∈ xs, check x = .ok [] := by
  induction xs with
  | nil => simp [gather]
  | cons x xs ih =>
    rw [gather_cons_eq_ok_iff, List.forall_mem_cons, ← ih]
    constructor
    · rintro ⟨here, more, hx, hxs, heq⟩
      obtain ⟨rfl, rfl⟩ := List.append_eq_nil_iff.mp heq
      exact ⟨hx, hxs⟩
    · exact fun ⟨hx, hxs⟩ => ⟨[], [], hx, hxs, rfl⟩

theorem forall_mem_gather {check : α → Except Breakdown (List Finding)} {xs : List α}
    {findings : List Finding} {P : Finding → Prop}
    (hP : ∀ x ∈ xs, ∀ here, check x = .ok here → ∀ f ∈ here, P f)
    (h : gather check xs = .ok findings) : ∀ f ∈ findings, P f := by
  induction xs generalizing findings with
  | nil =>
    rw [← Except.ok.inj h]
    simp
  | cons x xs ih =>
    obtain ⟨here, more, hx, hxs, rfl⟩ := gather_cons_eq_ok_iff.mp h
    rw [List.forall_mem_cons] at hP
    exact List.forall_mem_append.mpr ⟨hP.1 here hx, ih hP.2 hxs⟩

theorem gather_nil_iff {check : α → Except Breakdown (List Finding)} {xs : List α}
    {findings : List Finding} (h : gather check xs = .ok findings) :
    findings = [] ↔ ∀ x ∈ xs, ∀ here, check x = .ok here → here = [] := by
  induction xs generalizing findings with
  | nil => simp_all [gather]
  | cons x xs ih =>
    obtain ⟨here, more, hx, hxs, rfl⟩ := gather_cons_eq_ok_iff.mp h
    rw [List.append_eq_nil_iff, ih hxs, List.forall_mem_cons, hx]
    simp

theorem gather_eq_ok {check : α → Except Breakdown (List Finding)} {found : α → List Finding}
    {xs : List α} (h : ∀ x ∈ xs, check x = .ok (found x)) :
    gather check xs = .ok (xs.flatMap found) := by
  induction xs with
  | nil => rfl
  | cons x xs ih =>
    rw [gather, h x List.mem_cons_self, ih fun y hy => h y (List.mem_cons_of_mem x hy),
      List.flatMap_cons]
    rfl

theorem gather_append (check : α → Except Breakdown (List Finding)) (xs ys : List α) :
    gather check (xs ++ ys) = do
      let first ← gather check xs
      let more ← gather check ys
      return first ++ more := by
  induction xs with
  | nil => cases hys : gather check ys <;> simp [hys, gather, bind, Except.bind, pure, Except.pure]
  | cons x xs ih =>
    rw [List.cons_append, gather, gather, ih]
    cases check x with
    | error e => rfl
    | ok here =>
      cases gather check xs with
      | error e => rfl
      | ok first =>
        cases gather check ys <;> simp [bind, Except.bind, pure, Except.pure]

theorem exists_gather_iff {check : α → Except Breakdown (List Finding)} {xs : List α} :
    (∃ findings, gather check xs = .ok findings) ↔ ∀ x ∈ xs, ∃ here, check x = .ok here := by
  induction xs with
  | nil => simp [gather]
  | cons x xs ih =>
    simp only [gather_cons_eq_ok_iff, List.forall_mem_cons, ← ih]
    exact ⟨fun ⟨_, here, more, hx, hxs, _⟩ => ⟨⟨here, hx⟩, more, hxs⟩,
      fun ⟨⟨here, hx⟩, more, hxs⟩ => ⟨_, here, more, hx, hxs, rfl⟩⟩

/-- Lists in which parts are left out make the same list only if nothing is left out. -/
theorem flatMap_eq_iff_of_sublist {f g : α → List β} {xs : List α}
    (h : ∀ x ∈ xs, (f x).Sublist (g x)) :
    xs.flatMap f = xs.flatMap g ↔ ∀ x ∈ xs, f x = g x := by
  induction xs with
  | nil => simp
  | cons x xs ih =>
    rw [List.forall_mem_cons] at h
    rw [List.flatMap_cons, List.flatMap_cons, List.forall_mem_cons, ← ih h.2]
    constructor
    · intro heq
      have hlength := congrArg List.length heq
      rw [List.length_append, List.length_append] at hlength
      have hx := h.1.length_le
      have hsub := List.Sublist.flatMap_right xs h.2
      have hxs := hsub.length_le
      exact ⟨h.1.eq_of_length (by omega), hsub.eq_of_length (by omega)⟩
    · rintro ⟨hx, hxs⟩
      rw [hx, hxs]

theorem map_eq_iff_of_sublist {xs ys : List α} (h : xs.Sublist ys) (f : α → β) :
    xs.map f = ys.map f ↔ xs = ys := by
  constructor
  · intro heq
    have hlength := congrArg List.length heq
    rw [List.length_map, List.length_map] at hlength
    exact h.eq_of_length hlength
  · exact congrArg _

theorem flatMap_ite_singleton (p : α → Prop) [DecidablePred p] (f : α → β) (xs : List α) :
    (xs.flatMap fun x => if p x then [f x] else []) = (xs.filter p).map f := by
  induction xs with
  | nil => rfl
  | cons x xs ih => by_cases hx : p x <;> simp [hx, ih]

theorem flatMap_filter (p : α → Bool) (f : α → List β) (xs : List α) :
    (xs.filter p).flatMap f = xs.flatMap fun x => if p x then f x else [] := by
  induction xs with
  | nil => rfl
  | cons x xs ih => by_cases hx : p x = true <;> simp [hx, ih]

theorem flatMap_filter_eq_iff (p : α → Bool) (f : α → List β) (xs : List α) :
    (xs.filter p).flatMap f = xs.flatMap f ↔ ∀ x ∈ xs, p x = false → f x = [] := by
  have hsub : ∀ x ∈ xs, (if p x then f x else []).Sublist (f x) := by
    intro x _
    split
    · exact List.Sublist.refl _
    · exact List.nil_sublist _
  rw [flatMap_filter, flatMap_eq_iff_of_sublist hsub]
  apply forall₂_congr
  intro x _
  cases p x <;> simp [eq_comm]

end SuiteLint
