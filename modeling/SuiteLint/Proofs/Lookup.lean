/-!
# Looking things up

Lists of keys with what stands under them, as the tables of rules and of disabled lines are.
-/

namespace SuiteLint.Lookup

variable {α β γ : Type} [BEq α] [LawfulBEq α]

@[simp] theorem lookup_map (f : α → β → γ) (table : List (α × β)) (key : α) :
    (table.map fun entry => (entry.1, f entry.1 entry.2)).lookup key = (table.lookup key).map (f key) := by
  induction table with
  | nil => rfl
  | cons entry table ih =>
    obtain ⟨first, value⟩ := entry
    cases h : key == first with
    | true =>
      rw [eq_of_beq h]
      simp
    | false => simp only [List.map_cons, List.lookup_cons, h, ih]

theorem lookup_change [DecidableEq α] (f : β → β) (table : List (α × β)) (key other : α) :
    (table.map fun entry => if entry.1 = key then (key, f entry.2) else entry).lookup other =
      if other = key then (table.lookup other).map f else table.lookup other := by
  have hchange : (table.map fun entry => if entry.1 = key then (key, f entry.2) else entry) =
      table.map fun entry => (entry.1, (if entry.1 = key then f else id) entry.2) := by
    apply List.map_congr_left
    intro entry _
    by_cases h : entry.1 = key
    · simp [h]
    · simp [h]
  rw [hchange, lookup_map fun name => if name = key then f else id]
  by_cases h : other = key
  · simp [h]
  · simp [h]

/-- A change of what stands under one key, which is put at the end if it is not there. -/
theorem lookup_put [DecidableEq α] (f : β → β) (new : β) (table : List (α × β)) (key other : α) :
    (if (table.lookup key).isSome then
        table.map fun entry => if entry.1 = key then (key, f entry.2) else entry
      else table ++ [(key, new)]).lookup other =
      if other = key then some ((table.lookup key).elim new f) else table.lookup other := by
  split
  · next hsome =>
    obtain ⟨value, hvalue⟩ := Option.isSome_iff_exists.mp hsome
    rw [lookup_change]
    by_cases h : other = key
    · simp [h, hvalue]
    · simp [h]
  · next hnone =>
    have hkey : table.lookup key = none := Option.not_isSome_iff_eq_none.mp hnone
    rw [List.lookup_append, List.lookup_cons]
    by_cases h : other = key
    · simp [h, hkey]
    · have hother : (other == key) = false := beq_eq_false_iff_ne.mpr h
      simp [h, hother]

theorem eq_none_of_not_mem {table : List (α × β)} {key : α} (h : key ∉ table.map (·.1)) :
    table.lookup key = none := by
  rw [List.lookup_eq_none_iff]
  intro entry hentry
  apply bne_iff_ne.mpr
  rintro rfl
  exact h (List.mem_map_of_mem hentry)

theorem mem_of_eq_some {table : List (α × β)} {key : α} {value : β}
    (h : table.lookup key = some value) : (key, value) ∈ table := by
  obtain ⟨before, after, rfl, -⟩ := List.lookup_eq_some_iff.mp h
  simp

theorem eq_some_iff_mem {table : List (α × β)} (hn : (table.map (·.1)).Nodup) {key : α} {value : β} :
    table.lookup key = some value ↔ (key, value) ∈ table := by
  refine ⟨mem_of_eq_some, ?_⟩
  intro h
  obtain ⟨before, after, rfl⟩ := List.append_of_mem h
  refine List.lookup_eq_some_iff.mpr ⟨before, after, rfl, ?_⟩
  intro entry hentry
  apply bne_iff_ne.mpr
  rintro rfl
  rw [List.map_append, List.nodup_append] at hn
  exact hn.2.2 _ (List.mem_map_of_mem hentry) _ (by simp) rfl

end SuiteLint.Lookup
