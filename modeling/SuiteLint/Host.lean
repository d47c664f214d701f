import SuiteLint.Checker
import SuiteLint.Selection

/-! What a linter runs on. -/
namespace SuiteLint

/-- What differs from one installation or process to another: the generation of the framework and its
own libraries, the order in which the checkers are loaded, and the order of sets. -/
structure Host where
  /-- Whether the framework is of the fourth generation. -/
  modern : Bool
  libraries : List String
  checkers : List Checker
  checkers_perm : checkers.Perm Checker.all
  /-- The elements of a set as they follow each other in it. -/
  arrange : List String → List String
  arrange_perm (texts : List String) : (arrange texts).Perm texts
  walk : Selection.Walk

theorem Selection.nodup_eraseDups (names : List String) : names.eraseDups.Nodup := by
  match names with
  | [] => exact List.nodup_nil
  | name :: names =>
    rw [List.eraseDups_cons, List.nodup_cons, List.mem_eraseDups]
    exact ⟨by simp, nodup_eraseDups _⟩
termination_by names.length
decreasing_by exact Nat.lt_succ_of_le (List.length_filter_le ..)

/-- Walks that keep to the order of the list meet each name once. -/
theorem Selection.isMet_of_forall_mem {names visited : List String} (hnodup : visited.Nodup)
    (h : ∀ name ∈ visited, name ∈ names) : IsMet names visited := by
  induction visited generalizing names with
  | nil => trivial
  | cons name later ih =>
    obtain ⟨hname, hlater⟩ := List.nodup_cons.mp hnodup
    refine ⟨h name List.mem_cons_self, ih hlater fun other hother => ?_⟩
    have hmem := h other (List.mem_cons_of_mem name hother)
    have hne : other ≠ name := fun heq => hname (heq ▸ hother)
    unfold renameOld renameIn Text.insertText
    repeat' split
    all_goals simp_all

/-- The checkers in the order of their modules, and sets in the order of their lists. -/
def Host.plain : Host where
  modern := true
  libraries := []
  checkers := Checker.all
  checkers_perm := .refl _
  arrange := id
  arrange_perm := .refl
  walk := ⟨List.eraseDups, fun names => Selection.isMet_of_forall_mem (Selection.nodup_eraseDups names)
    fun _ => List.mem_eraseDups.mp, fun _ _ => List.mem_eraseDups.mpr⟩

end SuiteLint
