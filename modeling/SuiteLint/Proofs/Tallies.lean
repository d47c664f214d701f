import Mathlib.Data.List.Dedup
import Mathlib.Data.List.Induction
import SuiteLint.Tally
import SuiteLint.Proofs.Lookup

/-!
# Tallies of what was seen

A tally of a list holds each of its elements once, with the number of its occurrences and in the order of
the first ones. The most common entry is the first element that no other one occurs more often than.
-/

namespace SuiteLint

namespace Tally

variable {κ : Type}

@[simp] theorem total_cons (entry : κ × Nat) (t : Tally κ) :
    Tally.total (entry :: t) = entry.2 + Tally.total t := rfl

private theorem total_append (t u : Tally κ) : Tally.total (t ++ u) = Tally.total t + Tally.total u := by
  induction t with
  | nil => exact (Nat.zero_add _).symm
  | cons entry t ih => rw [List.cons_append, total_cons, total_cons, ih, Nat.add_assoc]

variable [DecidableEq κ]

theorem isSome_lookup_iff_mem {t : Tally κ} {key : κ} :
    (t.lookup key).isSome = true ↔ key ∈ t.map (·.1) := by
  rw [← Option.not_isNone, Bool.not_eq_true', ← Bool.not_eq_true, Option.isNone_iff_eq_none,
    List.lookup_eq_none_iff]
  simp

theorem keys_add (t : Tally κ) (key : κ) (n : Nat) :
    (t.add key n).map (·.1) =
      if (t.lookup key).isSome then t.map (·.1) else t.map (·.1) ++ [key] := by
  unfold add
  split
  · rw [List.map_map]
    apply List.map_congr_left
    intro entry _
    by_cases h : entry.1 = key
    · simp [h]
    · simp [h]
  · rw [List.map_append]
    rfl

theorem keys_add_nodup {t : Tally κ} (h : (t.map (·.1)).Nodup) (key : κ) (n : Nat) :
    ((t.add key n).map (·.1)).Nodup := by
  rw [keys_add]
  split
  · exact h
  · next hkey =>
    rw [isSome_lookup_iff_mem] at hkey
    refine List.nodup_append.mpr ⟨h, List.nodup_singleton key, ?_⟩
    rintro name hname last hlast rfl
    exact hkey (List.mem_singleton.mp hlast ▸ hname)

theorem change_of_not_mem {t : Tally κ} {key : κ} (h : key ∉ t.map (·.1)) (n : Nat) :
    (t.map fun entry => if entry.1 = key then (key, entry.2 + n) else entry) = t := by
  conv_rhs => rw [← List.map_id t]
  apply List.map_congr_left
  intro entry hentry
  have hne : entry.1 ≠ key := fun heq => h (heq ▸ List.mem_map_of_mem hentry)
  simp [hne]

/-- A change of the count of a key changes the sum as much, since the key stands there once. -/
theorem total_change {t : Tally κ} (hnodup : (t.map (·.1)).Nodup) {key : κ} (n : Nat)
    (hkey : (t.lookup key).isSome = true) :
    Tally.total (t.map fun entry => if entry.1 = key then (key, entry.2 + n) else entry) =
      Tally.total t + n := by
  induction t with
  | nil => exact absurd hkey (by simp)
  | cons entry t ih =>
    obtain ⟨first, count⟩ := entry
    rw [List.map_cons, List.nodup_cons] at hnodup
    rw [List.map_cons, total_cons, total_cons]
    by_cases hfirst : first = key
    · subst hfirst
      rw [change_of_not_mem hnodup.1, if_pos rfl]
      omega
    · rw [List.lookup_cons, beq_eq_false_iff_ne.mpr (Ne.symm hfirst)] at hkey
      rw [ih hnodup.2 hkey, if_neg hfirst]
      omega

private theorem total_add {t : Tally κ} (hnodup : (t.map (·.1)).Nodup) (key : κ) (n : Nat) :
    (t.add key n).total = t.total + n := by
  unfold add
  split
  · next hkey => exact total_change hnodup n hkey
  · rw [total_append]
    rfl

/-- A tally of what was seen: each thing stands there with the number of times that it was seen, in the
order in which they were seen first. -/
structure Counts (t : Tally κ) (seen : List κ) : Prop where
  ordered : (t.map (·.1)).Pairwise fun a b => seen.idxOf a < seen.idxOf b
  mem_iff : ∀ key n, (key, n) ∈ t ↔ key ∈ seen ∧ n = seen.count key
  total : t.total = seen.length

namespace Counts

variable {t : Tally κ} {seen : List κ} (h : t.Counts seen)

include h

theorem nodup : (t.map (·.1)).Nodup := h.ordered.imp fun hlt heq => absurd (heq ▸ hlt) (Nat.lt_irrefl _)

theorem mem_keys_iff (key : κ) : key ∈ t.map (·.1) ↔ key ∈ seen := by
  rw [List.mem_map]
  constructor
  · rintro ⟨entry, hentry, rfl⟩
    exact ((h.mem_iff entry.1 entry.2).mp hentry).1
  · intro hseen
    exact ⟨(key, seen.count key), (h.mem_iff _ _).mpr ⟨hseen, rfl⟩, rfl⟩

theorem isSome_lookup_iff (key : κ) : (t.lookup key).isSome = true ↔ key ∈ seen := by
  rw [isSome_lookup_iff_mem, h.mem_keys_iff]

theorem count_eq (key : κ) : t.count key = seen.count key := by
  rw [count]
  cases hlookup : t.lookup key with
  | none =>
    have hnew : key ∉ seen := by
      rw [← h.isSome_lookup_iff, hlookup]
      exact Bool.false_ne_true
    exact (List.count_eq_zero_of_not_mem hnew).symm
  | some n => exact ((h.mem_iff key n).mp (Lookup.mem_of_eq_some hlookup)).2

theorem ordered_add (key : κ) :
    ((t.add key 1).map (·.1)).Pairwise fun a b =>
      (seen ++ [key]).idxOf a < (seen ++ [key]).idxOf b := by
  have hold : (t.map (·.1)).Pairwise fun a b =>
      (seen ++ [key]).idxOf a < (seen ++ [key]).idxOf b := by
    refine h.ordered.imp_of_mem ?_
    intro a b ha hb hlt
    rw [List.idxOf_append_of_mem ((h.mem_keys_iff a).mp ha),
      List.idxOf_append_of_mem ((h.mem_keys_iff b).mp hb)]
    exact hlt
  rw [keys_add]
  split
  · exact hold
  · next hkey =>
    have hnew : key ∉ seen := fun hseen => hkey ((h.isSome_lookup_iff key).mpr hseen)
    refine List.pairwise_append.mpr ⟨hold, List.pairwise_singleton _ _, ?_⟩
    intro a ha b hb
    have hseen := (h.mem_keys_iff a).mp ha
    rw [List.mem_singleton.mp hb, List.idxOf_append_of_mem hseen, List.idxOf_append_of_notMem hnew]
    exact Nat.lt_of_lt_of_le (List.idxOf_lt_length_of_mem hseen) (Nat.le_add_right _ _)

theorem mem_add_iff (key other : κ) (n : Nat) :
    (other, n) ∈ t.add key 1 ↔ other ∈ seen ++ [key] ∧ n = (seen ++ [key]).count other := by
  rw [← Lookup.eq_some_iff_mem (keys_add_nodup h.nodup key 1), add,
    Lookup.lookup_put (· + 1) 1 t key other]
  by_cases hother : other = key
  · subst hother
    rw [if_pos rfl, List.count_append, List.count_singleton_self]
    cases hlookup : t.lookup other with
    | none =>
      have hnew : other ∉ seen := by
        rw [← h.isSome_lookup_iff, hlookup]
        exact Bool.false_ne_true
      simp [List.count_eq_zero_of_not_mem hnew, eq_comm]
    | some m =>
      obtain ⟨-, hcount⟩ := (h.mem_iff other m).mp (Lookup.mem_of_eq_some hlookup)
      simp [hcount, eq_comm]
  · rw [if_neg hother, Lookup.eq_some_iff_mem h.nodup, h.mem_iff, List.count_append, List.mem_append,
      List.count_singleton, List.mem_singleton]
    simp [hother, Ne.symm hother]

theorem add (key : κ) : (t.add key 1).Counts (seen ++ [key]) where
  ordered := h.ordered_add key
  mem_iff := h.mem_add_iff key
  total := by rw [total_add h.nodup, h.total, List.length_append, List.length_singleton]

private theorem foldl (keys : List κ) :
    Counts (keys.foldl (fun t key => t.add key 1) t) (seen ++ keys) := by
  induction keys generalizing t seen with
  | nil => rwa [List.append_nil]
  | cons key keys ih =>
    rw [List.foldl_cons, List.append_cons]
    exact ih (h.add key)

end Counts

theorem counts_ofList (keys : List κ) : (Tally.ofList keys).Counts keys :=
  @Counts.foldl κ _ [] [] ⟨List.Pairwise.nil, by simp, rfl⟩ keys

/-! ## Counting in parts -/

theorem add_of_mem {t : Tally κ} {key : κ} (h : key ∈ t.map (·.1)) (n : Nat) :
    t.add key n = t.map fun entry => if entry.1 = key then (key, entry.2 + n) else entry :=
  if_pos (isSome_lookup_iff_mem.mpr h)

theorem add_of_not_mem {t : Tally κ} {key : κ} (h : key ∉ t.map (·.1)) (n : Nat) :
    t.add key n = t ++ [(key, n)] :=
  if_neg (mt isSome_lookup_iff_mem.mp h)

@[simp] theorem mem_keys_add {t : Tally κ} {key other : κ} {n : Nat} :
    other ∈ (t.add key n).map (·.1) ↔ other ∈ t.map (·.1) ∨ other = key := by
  rw [keys_add]
  split
  · next h =>
    rw [isSome_lookup_iff_mem] at h
    constructor
    · exact Or.inl
    · rintro (hother | rfl)
      · exact hother
      · exact h
  · rw [List.mem_append, List.mem_singleton]

theorem add_add (t : Tally κ) (key : κ) (m n : Nat) :
    (t.add key m).add key n = t.add key (m + n) := by
  rw [add_of_mem (mem_keys_add.mpr (Or.inr rfl))]
  by_cases h : key ∈ t.map (·.1)
  · rw [add_of_mem h, add_of_mem h, List.map_map]
    apply List.map_congr_left
    intro entry _
    by_cases hentry : entry.1 = key <;> simp [hentry, Nat.add_assoc]
  · rw [add_of_not_mem h, add_of_not_mem h, List.map_append, change_of_not_mem h]
    simp

/-- Where a key stands already, it does not matter when its count is raised. -/
theorem add_comm_of_mem {t : Tally κ} {key : κ} (h : key ∈ t.map (·.1)) (other : κ) (m n : Nat) :
    (t.add other m).add key n = (t.add key n).add other m := by
  rw [add_of_mem (mem_keys_add.mpr (Or.inl h))]
  by_cases hother : other ∈ t.map (·.1)
  · rw [add_of_mem hother, add_of_mem (mem_keys_add.mpr (Or.inl hother)), add_of_mem h, List.map_map,
      List.map_map]
    apply List.map_congr_left
    intro entry _
    by_cases hfirst : entry.1 = key
    · by_cases hsecond : entry.1 = other
      · simp [← hfirst, ← hsecond, Nat.add_right_comm]
      · simp [hfirst, hfirst ▸ hsecond]
    · by_cases hsecond : entry.1 = other
      · simp [hsecond, hsecond ▸ hfirst]
      · simp [hfirst, hsecond]
  · have hne : other ≠ key := fun heq => hother (heq ▸ h)
    have hnew : other ∉ (t.add key n).map (·.1) := by
      rw [mem_keys_add]
      exact fun hor => hor.elim hother hne
    rw [add_of_not_mem hother, add_of_not_mem hnew, add_of_mem h, List.map_append]
    simp [hne]

@[simp] theorem merge_cons (t : Tally κ) (entry : κ × Nat) (u : Tally κ) :
    t.merge (entry :: u) = (t.add entry.1 entry.2).merge u := rfl

private theorem merge_add_left {t : Tally κ} {key : κ} (h : key ∈ t.map (·.1)) (n : Nat) (u : Tally κ) :
    (t.add key n).merge u = (t.merge u).add key n := by
  induction u generalizing t with
  | nil => rfl
  | cons entry u ih =>
    rw [merge_cons, merge_cons, ← add_comm_of_mem h, ih (mem_keys_add.mpr (Or.inl h))]

theorem merge_add {u : Tally κ} (hnodup : (u.map (·.1)).Nodup) (t : Tally κ) (key : κ) :
    t.merge (u.add key 1) = (t.merge u).add key 1 := by
  induction u generalizing t with
  | nil => rfl
  | cons entry u ih =>
    obtain ⟨first, n⟩ := entry
    rw [List.map_cons, List.nodup_cons] at hnodup
    by_cases hfirst : first = key
    · subst hfirst
      -- The entry of the key is the first one, and raising it later comes to the same.
      have hadd : Tally.add ((first, n) :: u) first 1 = (first, n + 1) :: u := by
        rw [add_of_mem List.mem_cons_self, List.map_cons, change_of_not_mem hnodup.1]
        simp
      rw [hadd, merge_cons, merge_cons, ← add_add,
        merge_add_left (mem_keys_add.mpr (Or.inr rfl))]
    · have hadd : Tally.add ((first, n) :: u) key 1 = (first, n) :: Tally.add u key 1 := by
        by_cases hkey : key ∈ u.map (·.1)
        · rw [add_of_mem (List.mem_cons_of_mem _ hkey), add_of_mem hkey, List.map_cons]
          simp [hfirst]
        · have hnew : key ∉ List.map (·.1) ((first, n) :: u) := by
            simp only [List.map_cons, List.mem_cons, not_or]
            exact ⟨Ne.symm hfirst, hkey⟩
          rw [add_of_not_mem hnew, add_of_not_mem hkey, List.cons_append]
      rw [hadd, merge_cons, merge_cons, ih hnodup.2]

private theorem ofList_concat (keys : List κ) (key : κ) :
    Tally.ofList (keys ++ [key]) = (Tally.ofList keys).add key 1 := by
  rw [ofList, List.foldl_append]
  rfl

theorem Counts.merge {t : Tally κ} {seen : List κ} (h : t.Counts seen) (keys : List κ) :
    (t.merge (Tally.ofList keys)).Counts (seen ++ keys) := by
  induction keys using List.reverseRecOn with
  | nil => rwa [List.append_nil]
  | append_singleton keys key ih =>
    rw [ofList_concat, merge_add (counts_ofList keys).nodup, ← List.append_assoc]
    exact ih.add key

/-! ## The most common entry -/

omit [DecidableEq κ] in
/-- The entry that a search for the highest count ends with: those before it have lower counts, and
those behind it have no higher ones. -/
theorem exists_split_of_foldl {first best : κ × Nat} {rest : Tally κ}
    (h : rest.foldl (fun best entry => if best.2 < entry.2 then entry else best) first = best) :
    ∃ before after, first :: rest = before ++ best :: after ∧ (∀ entry ∈ before, entry.2 < best.2) ∧
      ∀ entry ∈ after, entry.2 ≤ best.2 := by
  induction rest generalizing first with
  | nil => exact ⟨[], [], by rw [← h]; rfl, by simp, by simp⟩
  | cons second rest ih =>
    rw [List.foldl_cons] at h
    by_cases hlt : first.2 < second.2
    · rw [if_pos hlt] at h
      obtain ⟨before, after, hsplit, hbefore, hafter⟩ := ih h
      refine ⟨first :: before, after, by rw [hsplit]; rfl, ?_, hafter⟩
      have hsecond : second.2 ≤ best.2 := by
        rcases List.cons_eq_append_iff.mp hsplit with ⟨-, hcons⟩ | ⟨more, rfl, -⟩
        · exact Nat.le_of_eq (congrArg Prod.snd (List.cons.inj hcons).1.symm)
        · exact Nat.le_of_lt (hbefore second List.mem_cons_self)
      rw [List.forall_mem_cons]
      exact ⟨Nat.lt_of_lt_of_le hlt hsecond, hbefore⟩
    · rw [if_neg hlt] at h
      obtain ⟨before, after, hsplit, hbefore, hafter⟩ := ih h
      have hle := Nat.le_of_not_lt hlt
      rcases List.cons_eq_append_iff.mp hsplit with ⟨-, hcons⟩ | ⟨more, rfl, hrest⟩
      · obtain ⟨rfl, rfl⟩ := List.cons.inj hcons
        refine ⟨[], second :: after, rfl, by simp, ?_⟩
        rw [List.forall_mem_cons]
        exact ⟨hle, hafter⟩
      · rw [List.forall_mem_cons] at hbefore
        refine ⟨first :: second :: more, after, by rw [hrest]; rfl, ?_, hafter⟩
        rw [List.forall_mem_cons, List.forall_mem_cons]
        exact ⟨hbefore.1, Nat.lt_of_le_of_lt hle hbefore.1, hbefore.2⟩

end Tally

section

variable {κ : Type} [DecidableEq κ]

def commonest? (seen : List κ) : Option κ :=
  seen.find? fun x => seen.all fun y => seen.count y ≤ seen.count x

def Outdoes (seen : List κ) (x y : κ) : Prop :=
  seen.count y < seen.count x ∨ seen.count y = seen.count x ∧ seen.idxOf x < seen.idxOf y

instance (seen : List κ) (x y : κ) : Decidable (Outdoes seen x y) :=
  inferInstanceAs (Decidable (_ ∨ _))

theorem exists_commonest {seen : List κ} (h : seen ≠ []) : ∃ x, commonest? seen = some x := by
  obtain ⟨n, hn⟩ : ∃ n, (seen.map seen.count).max? = some n := by
    rw [← Option.isSome_iff_exists, List.isSome_max?_iff]
    simpa using h
  obtain ⟨hmem, hmax⟩ := List.max?_eq_some_iff.mp hn
  obtain ⟨x, hx, rfl⟩ := List.mem_map.mp hmem
  rw [← Option.isSome_iff_exists, commonest?, List.find?_isSome]
  refine ⟨x, hx, ?_⟩
  rw [List.all_eq_true]
  exact fun y hy => decide_eq_true (hmax _ (List.mem_map_of_mem hy))

theorem eq_nil_of_commonest?_eq_none {seen : List κ} (h : commonest? seen = none) : seen = [] := by
  refine Decidable.byContradiction fun hne => ?_
  obtain ⟨x, hx⟩ := exists_commonest hne
  rw [h] at hx
  cases hx

theorem not_outdoes_of_commonest? {seen : List κ} {x y : κ} (h : commonest? seen = some x)
    (hy : y ∈ seen) : ¬ Outdoes seen y x := by
  obtain ⟨hmost, before, after, hsplit, hbefore⟩ := List.find?_eq_some_iff_append.mp h
  rw [List.all_eq_true] at hmost
  have hcount : seen.count y ≤ seen.count x := of_decide_eq_true (hmost y hy)
  rintro (hmore | ⟨hsame, hearlier⟩)
  · exact absurd hmore (Nat.not_lt.mpr hcount)
  · -- An earlier element that occurs as often would have been taken.
    have hplace : seen.idxOf y < before.length := by
      refine Nat.lt_of_lt_of_le hearlier ?_
      rw [hsplit]
      by_cases hx : x ∈ before
      · rw [List.idxOf_append_of_mem hx]
        exact List.idxOf_le_length
      · rw [List.idxOf_append_of_notMem hx, List.idxOf_cons_self]
        exact Nat.le_refl _
    have hmem : y ∈ before := by
      refine Decidable.byContradiction fun hnot => ?_
      rw [hsplit, List.idxOf_append_of_notMem hnot] at hplace
      omega
    have hnot := hbefore y hmem
    rw [Bool.not_eq_true', List.all_eq_false] at hnot
    obtain ⟨z, hz, hmore⟩ := hnot
    have hle : seen.count z ≤ seen.count x := of_decide_eq_true (hmost z hz)
    exact hmore (decide_eq_true (by omega))

private theorem outdoes_or_outdoes {seen : List κ} {x y : κ} (hx : x ∈ seen) (hne : x ≠ y) :
    Outdoes seen x y ∨ Outdoes seen y x := by
  have hplace : seen.idxOf x ≠ seen.idxOf y := fun heq => hne ((List.idxOf_inj hx).mp heq)
  unfold Outdoes
  omega

theorem commonest?_eq_some_iff {seen : List κ} {x : κ} :
    commonest? seen = some x ↔ x ∈ seen ∧ ∀ y ∈ seen, ¬ Outdoes seen y x := by
  constructor
  · intro h
    exact ⟨List.mem_of_find?_eq_some h, fun y hy => not_outdoes_of_commonest? h hy⟩
  · rintro ⟨hx, hleast⟩
    obtain ⟨y, hy⟩ := exists_commonest (List.ne_nil_of_mem hx)
    have hmem := List.mem_of_find?_eq_some hy
    refine Decidable.byContradiction fun hnot => ?_
    have hne : y ≠ x := fun heq => hnot (heq ▸ hy)
    rcases outdoes_or_outdoes hmem hne with hout | hout
    · exact hleast y hmem hout
    · exact not_outdoes_of_commonest? hy hx hout

theorem commonest?_of_forall_eq {seen : List κ} {x : κ} (hx : x ∈ seen) (h : ∀ y ∈ seen, y = x) :
    commonest? seen = some x := by
  refine commonest?_eq_some_iff.mpr ⟨hx, fun y hy => ?_⟩
  rw [h y hy]
  unfold Outdoes
  omega

end

namespace Tally

variable {κ : Type} [DecidableEq κ] {t : Tally κ} {seen : List κ}

/-- The most common entry of a tally is the most common element of what was seen. -/
theorem Counts.mostCommon?_eq (h : t.Counts seen) : t.mostCommon? = commonest? seen := by
  cases t with
  | nil =>
    have hseen : seen = [] := by
      rw [List.eq_nil_iff_forall_not_mem]
      intro key hkey
      exact absurd ((h.mem_keys_iff key).mpr hkey) List.not_mem_nil
    rw [hseen]
    rfl
  | cons first rest =>
    rw [mostCommon?]
    generalize hbest : rest.foldl (fun best entry => if best.2 < entry.2 then entry else best) first = best
    obtain ⟨before, after, hsplit, hbefore, hafter⟩ := exists_split_of_foldl hbest
    obtain ⟨key, n⟩ := best
    rw [hsplit] at h
    obtain ⟨hseen, hn⟩ := (h.mem_iff key n).mp (List.mem_append_right _ List.mem_cons_self)
    suffices hmost : commonest? seen = some key from hmost.symm
    refine commonest?_eq_some_iff.mpr ⟨hseen, fun other hother hout => ?_⟩
    have hentry := (h.mem_iff other _).mpr ⟨hother, rfl⟩
    have hordered := h.ordered
    rw [List.map_append, List.map_cons, List.pairwise_append, List.pairwise_cons] at hordered
    rcases List.mem_append.mp hentry with hmem | hmem
    · have hlt : seen.count other < n := hbefore _ hmem
      rcases hout with hmore | ⟨hsame, -⟩ <;> omega
    · rcases List.mem_cons.mp hmem with heq | hmem
      · obtain ⟨rfl, -⟩ := Prod.mk.inj heq
        unfold Outdoes at hout
        omega
      · have hle : seen.count other ≤ n := hafter _ hmem
        have hplace : seen.idxOf key < seen.idxOf other :=
          hordered.2.1.1 other (List.mem_map_of_mem hmem)
        rcases hout with hmore | ⟨-, hearlier⟩ <;> omega

theorem Counts.eq_of_length_eq_one (h : t.Counts seen) (hone : t.length = 1) {x y : κ}
    (hx : x ∈ seen) (hy : y ∈ seen) : x = y := by
  obtain ⟨entry, rfl⟩ := List.length_eq_one_iff.mp hone
  have hx' := (h.mem_keys_iff x).mpr hx
  have hy' := (h.mem_keys_iff y).mpr hy
  rw [List.mem_singleton.mp hx', List.mem_singleton.mp hy']

end Tally

end SuiteLint
