import SuiteLint.Text.Similar

/-!
# The longest common run of two texts

The run is found row by row: a row holds, for each place of the second text, how many characters the two
texts share that end there and at a place of the first text. The run that is kept is common to both texts,
and none is longer.
-/

namespace SuiteLint.Text

/-! ## Shared characters -/

theorem exists_shared (a b : List Char) :
    ∃ shared a' b', a = shared ++ a' ∧ b = shared ++ b' ∧ shared.length = sharedLength a b := by
  fun_induction sharedLength a b with
  | case1 x a y b heq ih =>
    obtain ⟨shared, a', b', rfl, rfl, hlength⟩ := ih
    exact ⟨x :: shared, a', b', rfl, by rw [eq_of_beq heq]; rfl, congrArg (· + 1) hlength⟩
  | case2 x a y b hne => exact ⟨[], x :: a, y :: b, rfl, rfl, rfl⟩
  | case3 a b => exact ⟨[], a, b, rfl, rfl, rfl⟩

private theorem le_sharedLength (shared a b : List Char) :
    shared.length ≤ sharedLength (shared ++ a) (shared ++ b) := by
  induction shared with
  | nil => exact Nat.zero_le _
  | cons c shared ih =>
    rw [List.cons_append, List.cons_append, sharedLength, if_pos (beq_self_eq_true c)]
    exact Nat.succ_le_succ ih

private theorem sharedLength_nil_right (a : List Char) : sharedLength a [] = 0 := by
  cases a <;> rfl

/-! ## Common runs -/

theorem take_before {front shared back : List Char} {left : Nat} (h : front.length = left) :
    (front ++ shared ++ back).take left = front := by
  rw [List.append_assoc, ← h, List.take_left]

theorem drop_behind {front shared back : List Char} {left size : Nat} (hleft : front.length = left)
    (hsize : shared.length = size) : (front ++ shared ++ back).drop (left + size) = back := by
  rw [← hleft, ← hsize, ← List.length_append, List.drop_left]

def Run.IsCommon (r : Run) (a b : List Char) : Prop :=
  ∃ front front' shared back back', a = front ++ shared ++ back ∧ b = front' ++ shared ++ back' ∧
    front.length = r.left ∧ front'.length = r.right ∧ shared.length = r.size

private theorem isCommon_empty (a b : List Char) : Run.IsCommon ⟨0, 0, 0⟩ a b :=
  ⟨[], [], [], a, b, rfl, rfl, rfl, rfl, rfl⟩

/-- What two texts share before given places is a common run. -/
theorem isCommon_sharedLength (before before' after after' : List Char) :
    Run.IsCommon ⟨before.length - sharedLength before before', before'.length - sharedLength before before',
      sharedLength before before'⟩ (before.reverse ++ after) (before'.reverse ++ after') := by
  obtain ⟨shared, front, front', hbefore, hbefore', hlength⟩ := exists_shared before before'
  refine ⟨front.reverse, front'.reverse, shared.reverse, after, after', ?_, ?_, ?_, ?_, ?_⟩
  · rw [hbefore, List.reverse_append]
  · rw [hbefore', List.reverse_append]
  · have htotal := congrArg List.length hbefore
    rw [List.length_append] at htotal
    simp only [List.length_reverse]
    omega
  · have htotal := congrArg List.length hbefore'
    rw [List.length_append] at htotal
    simp only [List.length_reverse]
    omega
  · rw [List.length_reverse, hlength]

theorem Run.IsCommon.extend {r : Run} {a b : List Char} (h : r.IsCommon a b) :
    let back := sharedLength (a.take r.left).reverse (b.take r.right).reverse
    let forth := sharedLength (a.drop (r.left + r.size)) (b.drop (r.right + r.size))
    Run.IsCommon ⟨r.left - back, r.right - back, r.size + back + forth⟩ a b := by
  obtain ⟨front, front', shared, rest, rest', rfl, rfl, hleft, hright, hsize⟩ := h
  simp only [take_before hleft, take_before hright, drop_behind hleft hsize, drop_behind hright hsize]
  obtain ⟨before, start, start', hbefore, hbefore', hback⟩ := exists_shared front.reverse front'.reverse
  obtain ⟨after, finish, finish', hafter, hafter', hforth⟩ := exists_shared rest rest'
  rw [List.reverse_eq_iff, List.reverse_append] at hbefore hbefore'
  refine ⟨start.reverse, start'.reverse, before.reverse ++ shared ++ after, finish, finish', ?_, ?_, ?_, ?_,
    ?_⟩
  · rw [hbefore, hafter]
    simp only [List.append_assoc]
  · rw [hbefore', hafter']
    simp only [List.append_assoc]
  · have htotal := congrArg List.length hbefore
    rw [List.length_append, List.length_reverse, List.length_reverse] at htotal
    simp only [List.length_reverse]
    omega
  · have htotal := congrArg List.length hbefore'
    rw [List.length_append, List.length_reverse, List.length_reverse] at htotal
    simp only [List.length_reverse]
    omega
  · simp only [List.length_append, List.length_reverse]
    omega

/-! ## Rows -/

/-- For each place of a text, how much the characters up to it share with those before a place of another
text; both are read backwards, and `seen` holds the characters of the text that come first. -/
def endsAt (before : List Char) : List Char → List Char → List Nat
  | _, [] => []
  | seen, y :: b => sharedLength before (y :: seen) :: endsAt before (y :: seen) b

theorem sharedLength_mem_endsAt (before seen b₁ : List Char) (y : Char) (b₂ : List Char) :
    sharedLength before (y :: b₁.reverse ++ seen) ∈ endsAt before seen (b₁ ++ y :: b₂) := by
  induction b₁ generalizing seen with
  | nil => exact List.mem_cons_self
  | cons z b₁ ih =>
    have hmem := ih (z :: seen)
    rw [List.cons_append, endsAt, List.reverse_cons, List.cons_append, List.append_assoc]
    exact List.mem_cons_of_mem _ hmem

theorem runRow_endsAt (x : Char) (before seen b : List Char) :
    runRow [] x (sharedLength before seen) b (endsAt before seen b) = endsAt (x :: before) seen b := by
  induction b generalizing seen with
  | nil => rfl
  | cons y b ih =>
    have hhere : (if (x == y && !([] : List Char).contains y) = true then sharedLength before seen + 1
        else 0) = sharedLength (x :: before) (y :: seen) := by
      rw [sharedLength, List.contains_nil, Bool.not_false, Bool.and_true]
    rw [endsAt, runRow, hhere, List.headD_cons, List.tail_cons, ih, endsAt]

theorem runRow_nil (x : Char) (seen b : List Char) :
    runRow [] x 0 b [] = runRow [] x 0 b (endsAt [] seen b) := by
  induction b generalizing seen with
  | nil => rfl
  | cons y b ih =>
    rw [endsAt, runRow, runRow, List.headD_nil, List.tail_nil, List.headD_cons, List.tail_cons,
      ih (y :: seen)]
    rfl

private theorem longestFrom_nil (b : List Char) (i : Nat) (best : Run) (a : List Char) :
    longestFrom [] b i best [] a = longestFrom [] b i best (endsAt [] [] b) a := by
  cases a with
  | nil => rfl
  | cons x a => rw [longestFrom, longestFrom, runRow_nil x []]

/-- A row gives a common run that is no shorter than what it holds. -/
theorem bestInRow_spec {before seen a b : List Char} {best : Run}
    (h : best.IsCommon (before.reverse ++ a) (seen.reverse ++ b)) {i : Nat} (hi : i + 1 = before.length) :
    (bestInRow i seen.length best (endsAt before seen b)).IsCommon (before.reverse ++ a)
        (seen.reverse ++ b) ∧
      best.size ≤ (bestInRow i seen.length best (endsAt before seen b)).size ∧
      ∀ k ∈ endsAt before seen b, k ≤ (bestInRow i seen.length best (endsAt before seen b)).size := by
  induction b generalizing seen best with
  | nil => exact ⟨h, Nat.le_refl _, List.forall_mem_nil _⟩
  | cons y b ih =>
    have hb : seen.reverse ++ y :: b = (y :: seen).reverse ++ b := by
      rw [List.reverse_cons, List.append_assoc, List.singleton_append]
    rw [hb] at h ⊢
    have hhere := isCommon_sharedLength before (y :: seen) a b
    rw [← hi, List.length_cons] at hhere
    rw [endsAt, bestInRow, List.forall_mem_cons]
    by_cases hlonger : best.size < sharedLength before (y :: seen)
    · obtain ⟨hcommon, hsize, hall⟩ := ih hhere
      rw [if_pos hlonger]
      exact ⟨hcommon, Nat.le_trans (Nat.le_of_lt hlonger) hsize, hsize, hall⟩
    · obtain ⟨hcommon, hsize, hall⟩ := ih h
      rw [if_neg hlonger]
      exact ⟨hcommon, hsize, Nat.le_trans (Nat.not_lt.mp hlonger) hsize, hall⟩

/-- The rows of a text, one for each of its characters, give a common run that is no shorter than what any
of them holds. -/
theorem longestFrom_spec {before a b : List Char} {best : Run} (h : best.IsCommon (before.reverse ++ a) b) :
    (longestFrom [] b before.length best (endsAt before [] b) a).IsCommon (before.reverse ++ a) b ∧
      best.size ≤ (longestFrom [] b before.length best (endsAt before [] b) a).size ∧
      ∀ a₁ x a₂, a = a₁ ++ x :: a₂ → ∀ k ∈ endsAt (x :: a₁.reverse ++ before) [] b,
        k ≤ (longestFrom [] b before.length best (endsAt before [] b) a).size := by
  induction a generalizing before best with
  | nil => exact ⟨h, Nat.le_refl _, fun a₁ x a₂ hnil => absurd hnil (by simp)⟩
  | cons x a ih =>
    have ha : before.reverse ++ x :: a = (x :: before).reverse ++ a := by
      rw [List.reverse_cons, List.append_assoc, List.singleton_append]
    have hrow := runRow_endsAt x before [] b
    rw [sharedLength_nil_right] at hrow
    rw [ha] at h ⊢
    obtain ⟨hbest, hlarger, hall⟩ := @bestInRow_spec (x :: before) [] a b best h before.length rfl
    obtain ⟨hcommon, hsize, hmore⟩ := ih hbest
    rw [longestFrom, hrow]
    refine ⟨hcommon, Nat.le_trans hlarger hsize, fun a₁ z a₂ hsplit k hk => ?_⟩
    cases a₁ with
    | nil =>
      obtain ⟨rfl, -⟩ := List.cons.inj hsplit
      exact Nat.le_trans (hall k hk) hsize
    | cons w a₁ =>
      obtain ⟨rfl, hrest⟩ := List.cons.inj hsplit
      refine hmore a₁ z a₂ hrest k ?_
      simpa using hk

def Run.IsLongest (r : Run) (a b : List Char) : Prop :=
  r.IsCommon a b ∧ ∀ other : Run, other.IsCommon a b → other.size ≤ r.size

theorem isLongest_longestFrom (a b : List Char) :
    (longestFrom [] b 0 ⟨0, 0, 0⟩ [] a).IsLongest a b := by
  rw [longestFrom_nil]
  obtain ⟨hcommon, -, hall⟩ := longestFrom_spec (isCommon_empty ([].reverse ++ a) b)
  refine ⟨hcommon, ?_⟩
  rintro other ⟨front, front', shared, back, back', ha, hb, -, -, hsize⟩
  rw [← hsize]
  rcases List.eq_nil_or_concat shared with rfl | ⟨start, x, rfl⟩
  · exact Nat.zero_le _
  · -- The run ends with its last character, where a row has an entry for it.
    rw [List.concat_eq_append] at ha hb ⊢
    have ha' : a = (front ++ start) ++ x :: back := by simpa using ha
    have hb' : b = (front' ++ start) ++ x :: back' := by simpa using hb
    have hmem := sharedLength_mem_endsAt (x :: (front ++ start).reverse ++ []) [] (front' ++ start) x back'
    rw [← hb'] at hmem
    have hlength := le_sharedLength (x :: start.reverse) front.reverse front'.reverse
    refine Nat.le_trans ?_ (hall _ x back ha' _ hmem)
    simpa using hlength

theorem isLongest_longestRun (a b : List Char) : (longestRun [] a b).IsLongest a b := by
  obtain ⟨hcommon, hall⟩ := isLongest_longestFrom a b
  refine ⟨hcommon.extend, fun other hother => ?_⟩
  have hle := hall other hother
  simp only [longestRun]
  omega

/-! ## Matched characters -/

/-- Texts are matched along their longest common run and on both sides of it, unless nothing is common. -/
theorem matched_cases (a b : List Char) :
    (longestRun [] a b).size = 0 ∧ matched [] a b = 0 ∨
      ∃ front front' shared back back', a = front ++ shared ++ back ∧ b = front' ++ shared ++ back' ∧
        0 < shared.length ∧ shared.length = (longestRun [] a b).size ∧
        matched [] a b = shared.length + matched [] front front' + matched [] back back' := by
  have hcommon := (isLongest_longestRun a b).1
  rw [matched]
  revert hcommon
  cases longestRun [] a b with
  | mk left right size =>
    rintro ⟨front, front', shared, back, back', ha, hb, hleft, hright, hsize⟩
    simp only at hleft hright hsize ⊢
    by_cases hsome : 0 < size
    · refine Or.inr ⟨front, front', shared, back, back', ha, hb, hsize ▸ hsome, hsize, ?_⟩
      have hfits : left + size ≤ a.length := by
        have htotal := congrArg List.length ha
        simp only [List.length_append] at htotal
        omega
      rw [dif_pos ⟨hsome, hfits⟩, ha, hb, take_before hleft, take_before hright, drop_behind hleft hsize,
        drop_behind hright hsize, hsize]
    · exact Or.inl ⟨Nat.eq_zero_of_not_pos hsome, dif_neg fun h => hsome h.1⟩

/-- No more is matched than either text has, and texts that are matched in full are equal. -/
theorem matched_spec (a b : List Char) : matched [] a b ≤ a.length ∧ matched [] a b ≤ b.length ∧
    (matched [] a b = a.length → matched [] a b = b.length → a = b) := by
  induction hlength : a.length using Nat.strongRecOn generalizing a b with
  | ind n ih =>
    subst hlength
    rcases matched_cases a b with ⟨-, hnone⟩ | ⟨front, front', shared, back, back', ha, hb, hpos, -, hsum⟩
    · rw [hnone]
      refine ⟨Nat.zero_le _, Nat.zero_le _, fun ha hb => ?_⟩
      rw [List.eq_nil_of_length_eq_zero ha.symm, List.eq_nil_of_length_eq_zero hb.symm]
    · have hla := congrArg List.length ha
      have hlb := congrArg List.length hb
      simp only [List.length_append] at hla hlb
      obtain ⟨hf, hf', hfronts⟩ := ih front.length (by omega) front front' rfl
      obtain ⟨hk, hk', hbacks⟩ := ih back.length (by omega) back back' rfl
      refine ⟨by omega, by omega, fun hfull hfull' => ?_⟩
      rw [ha, hb, hfronts (by omega) (by omega), hbacks (by omega) (by omega)]

@[simp] theorem matched_self (s : List Char) : matched [] s s = s.length := by
  have hwhole : (⟨0, 0, s.length⟩ : Run).IsCommon s s :=
    ⟨[], [], s, [], [], by simp, by simp, rfl, rfl, rfl⟩
  have hlongest := (isLongest_longestRun s s).2 _ hwhole
  have hle := (matched_spec s s).1
  rcases matched_cases s s with ⟨hsize, -⟩ | ⟨front, front', shared, back, back', -, -, -, hsize, hsum⟩
  · simp only [hsize] at hlongest
    omega
  · simp only at hlongest
    omega

end SuiteLint.Text
