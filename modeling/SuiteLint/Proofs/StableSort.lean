import SuiteLint.Issue

/-!
# Sorting is stable

Issues are sorted by line, column and number of rule, and those that agree in all three keep their
order. So the sorted list depends on the unsorted one only through the lists of issues that agree.
-/

namespace SuiteLint

section

variable {α : Type} {le : α → α → Bool}

/-- The elements of a list that stand neither strictly before nor strictly after `a`. -/
def peers (le : α → α → Bool) (a : α) (xs : List α) : List α := xs.filter fun b => le a b && le b a

@[simp] theorem mem_peers {a b : α} {xs : List α} :
    b ∈ peers le a xs ↔ b ∈ xs ∧ le a b = true ∧ le b a = true := by
  simp [peers]

theorem peers_append (a : α) (xs ys : List α) :
    peers le a (xs ++ ys) = peers le a xs ++ peers le a ys := List.filter_append ..

theorem peers_cons_of_peer {a x : α} (hax : le a x = true) (hxa : le x a = true) (xs : List α) :
    peers le a (x :: xs) = x :: peers le a xs := by
  simp [peers, hax, hxa]

private theorem mem_of_peers_eq {x : α} (hx : le x x = true) {xs ys : List α}
    (h : peers le x (x :: xs) = peers le x ys) : x ∈ ys := by
  have hmem : x ∈ peers le x ys := by
    rw [← h, peers_cons_of_peer hx hx]
    exact List.mem_cons_self
  exact (mem_peers.mp hmem).1

variable (trans : ∀ a b c, le a b = true → le b c = true → le a c = true)
  (total : ∀ a b, (le a b || le b a) = true)
include total

theorem eq_of_peers_eq {xs ys : List α} (hx : xs.Pairwise fun a b => le a b = true)
    (hy : ys.Pairwise fun a b => le a b = true) (h : ∀ a, peers le a xs = peers le a ys) :
    xs = ys := by
  have hself (a : α) : le a a = true := by simpa using total a a
  induction xs generalizing ys with
  | nil =>
    cases ys with
    | nil => rfl
    | cons y ys =>
      have hy := h y
      rw [peers_cons_of_peer (hself y) (hself y)] at hy
      cases hy
  | cons x xs ih =>
    have hmem : x ∈ ys := mem_of_peers_eq (hself x) (h x)
    cases ys with
    | nil => cases hmem
    | cons y ys =>
      have hymem : y ∈ x :: xs := mem_of_peers_eq (hself y) (h y).symm
      -- Each of the two first elements stands before the other, so they agree.
      have hxy : le x y = true := by
        rcases List.mem_cons.mp hymem with rfl | hymem
        · exact hself y
        · exact (List.pairwise_cons.mp hx).1 y hymem
      have hyx : le y x = true := by
        rcases List.mem_cons.mp hmem with rfl | hmem
        · exact hself x
        · exact (List.pairwise_cons.mp hy).1 x hmem
      have heads := h x
      rw [peers_cons_of_peer (hself x) (hself x), peers_cons_of_peer hxy hyx] at heads
      obtain rfl : x = y := (List.cons.inj heads).1
      have htails : ∀ a, peers le a xs = peers le a ys := by
        intro a
        have ha := h a
        simp only [peers, List.filter_cons] at ha ⊢
        split at ha
        · exact (List.cons.inj ha).2
        · exact ha
      rw [ih (List.pairwise_cons.mp hx).2 (List.pairwise_cons.mp hy).2 htails]

/-- In a sorted list, elements that agree stand in the order in which they stand among themselves. -/
theorem pairwise_of_peers {R : α → α → Prop} {xs : List α}
    (hsorted : xs.Pairwise fun a b => le a b = true) (hpeers : ∀ a, (peers le a xs).Pairwise R) :
    xs.Pairwise fun a b => le a b = true ∧ (le b a = true → R a b) := by
  induction xs with
  | nil => exact List.Pairwise.nil
  | cons x xs ih =>
    have hself : le x x = true := by simpa using total x x
    obtain ⟨hfirst, hrest⟩ := List.pairwise_cons.mp hsorted
    refine List.pairwise_cons.mpr ⟨?_, ih hrest ?_⟩
    · intro y hy
      refine ⟨hfirst y hy, fun hyx => ?_⟩
      have hagree := hpeers x
      rw [peers_cons_of_peer hself hself] at hagree
      exact (List.pairwise_cons.mp hagree).1 y (mem_peers.mpr ⟨hy, hfirst y hy, hyx⟩)
    · intro a
      exact (hpeers a).sublist ((List.sublist_cons_self x xs).filter _)

include trans

theorem peers_mergeSort (a : α) (xs : List α) : peers le a (xs.mergeSort le) = peers le a xs := by
  have hsorted : (peers le a xs).Pairwise fun b c => le b c = true := by
    refine List.Pairwise.imp_of_mem ?_
      (List.pairwise_of_forall (R := fun _ _ => True) fun _ _ => trivial)
    intro b c hb hc _
    exact trans b a c (mem_peers.mp hb).2.2 (mem_peers.mp hc).2.1
  have hsub : List.Sublist (peers le a xs) (xs.mergeSort le) :=
    List.sublist_mergeSort trans total hsorted List.filter_sublist
  have hpeers : List.Sublist (peers le a xs) (peers le a (xs.mergeSort le)) := by
    have hfilter := hsub.filter fun b => le a b && le b a
    simpa only [peers, List.filter_filter, Bool.and_self] using hfilter
  have hlen : (peers le a (xs.mergeSort le)).length = (peers le a xs).length :=
    ((List.mergeSort_perm xs le).filter _).length_eq
  exact (hpeers.eq_of_length hlen.symm).symm

theorem pairwise_mergeSort_of_pairwise {R : α → α → Prop} {xs : List α} (h : xs.Pairwise R) :
    (xs.mergeSort le).Pairwise fun a b => le a b = true ∧ (le b a = true → R a b) := by
  apply pairwise_of_peers total (List.pairwise_mergeSort trans total xs)
  intro a
  rw [peers_mergeSort trans total]
  exact h.filter _

/-- Lists in which the same elements agree with each element, in the same order, are sorted alike. -/
theorem mergeSort_eq_of_peers_eq {xs ys : List α} (h : ∀ a, peers le a xs = peers le a ys) :
    xs.mergeSort le = ys.mergeSort le := by
  apply eq_of_peers_eq total (List.pairwise_mergeSort trans total xs)
    (List.pairwise_mergeSort trans total ys)
  intro a
  rw [peers_mergeSort trans total, peers_mergeSort trans total, h a]

end

namespace Issue

theorem precedes_iff {i j : Issue} :
    precedes i j = true ↔
      i.line < j.line ∨ i.line = j.line ∧
        (i.col < j.col ∨ i.col = j.col ∧ i.ruleId ≤ j.ruleId) := by
  unfold precedes
  split
  · simp only [decide_eq_true_eq]
    omega
  · next hline =>
    split
    · simp only [decide_eq_true_eq]
      omega
    · next hcol =>
      rw [Bool.not_eq_true', decide_eq_false_iff_not, String.not_lt]
      constructor
      · exact fun hid => .inr ⟨Decidable.not_not.mp hline, .inr ⟨Decidable.not_not.mp hcol, hid⟩⟩
      · rintro (hlt | ⟨-, hlt | ⟨-, hid⟩⟩)
        · omega
        · omega
        · exact hid

theorem precedes_trans (i j k : Issue) (hij : precedes i j = true) (hjk : precedes j k = true) :
    precedes i k = true := by
  rw [precedes_iff] at hij hjk ⊢
  have hid : i.ruleId ≤ j.ruleId → j.ruleId ≤ k.ruleId → i.ruleId ≤ k.ruleId := String.le_trans
  grind

theorem precedes_total (i j : Issue) : (precedes i j || precedes j i) = true := by
  rw [Bool.or_eq_true, precedes_iff, precedes_iff]
  have hid := String.le_total i.ruleId j.ruleId
  grind

theorem ruleId_eq_of_precedes {i j : Issue} (hij : precedes i j = true) (hji : precedes j i = true) :
    i.ruleId = j.ruleId := by
  rw [precedes_iff] at hij hji
  have hid : i.ruleId ≤ j.ruleId ∧ j.ruleId ≤ i.ruleId := by grind
  exact String.le_antisymm hid.1 hid.2

theorem sort_pairwise (issues : List Issue) :
    (sort issues).Pairwise fun i j => precedes i j = true :=
  List.pairwise_mergeSort precedes_trans precedes_total issues

theorem sort_perm (issues : List Issue) : (sort issues).Perm issues :=
  List.mergeSort_perm issues precedes

end Issue

end SuiteLint
