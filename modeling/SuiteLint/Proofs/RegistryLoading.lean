import SuiteLint.Config.Options
import SuiteLint.Proofs.Lookup

/-!
# Loading the registry

Checkers whose rules have pairwise different names and ids can all be registered, and the table then holds
each of these once. The rules of the linter are such, so it always loads.
-/

namespace SuiteLint

namespace CheckerEntry

variable {κ : Type}

def labels (c : CheckerEntry κ) : List String := c.rules.flatMap fun rule => [rule.name, rule.id]

@[simp] theorem labels_select (c : CheckerEntry κ) (s : Selection) : (c.select s).labels = c.labels := by
  simp [labels, select, List.flatMap_map]

end CheckerEntry

namespace Registry

variable {κ : Type}

def entriesOf (place : Nat) (rule : Rule) : List (String × RuleRef) :=
  [(rule.name, ⟨place, rule.name⟩), (rule.id, ⟨place, rule.name⟩)]

def tableFrom (place : Nat) (cs : List (CheckerEntry κ)) : List (String × RuleRef) :=
  (cs.zipIdx place).flatMap fun entry => entry.1.rules.flatMap (entriesOf entry.2)

def ofCheckers (cs : List (CheckerEntry κ)) : Registry κ :=
  ⟨cs, List.range cs.length, tableFrom 0 cs⟩

private theorem tableFrom_append (place : Nat) (cs ds : List (CheckerEntry κ)) :
    tableFrom place (cs ++ ds) = tableFrom place cs ++ tableFrom (place + cs.length) ds := by
  simp [tableFrom, List.zipIdx_append]

private theorem tableFrom_singleton (place : Nat) (c : CheckerEntry κ) :
    tableFrom place [c] = c.rules.flatMap (entriesOf place) := by simp [tableFrom]

private theorem keys_entriesOf (place : Nat) (rules : List Rule) :
    (rules.flatMap (entriesOf place)).map (·.1) = rules.flatMap fun rule => [rule.name, rule.id] := by
  simp [List.map_flatMap, entriesOf]

theorem keys_tableFrom (place : Nat) (cs : List (CheckerEntry κ)) :
    (tableFrom place cs).map (·.1) = cs.flatMap (·.labels) := by
  induction cs generalizing place with
  | nil => rfl
  | cons c cs ih =>
    have h := ih (place + 1)
    simp only [tableFrom, List.zipIdx_cons, List.flatMap_cons, List.map_append, keys_entriesOf,
      CheckerEntry.labels] at h ⊢
    rw [h]

theorem known_ofCheckers (cs : List (CheckerEntry κ)) :
    (ofCheckers cs).known = cs.flatMap (·.labels) := keys_tableFrom 0 cs

private theorem filterMap_getElem? {α : Type} (xs : List α) :
    (List.range xs.length).filterMap (xs[·]?) = xs := by
  induction xs with
  | nil => rfl
  | cons x xs ih =>
    rw [List.length_cons, List.range_succ_eq_map, List.filterMap_cons, List.filterMap_map]
    simp only [List.getElem?_cons_zero]
    exact congrArg (x :: ·) ih

@[simp] theorem active_ofCheckers (cs : List (CheckerEntry κ)) : (ofCheckers cs).active = cs :=
  filterMap_getElem? cs

theorem enter_eq (place : Nat) (title : String) (r : Registry κ) (rules : List Rule)
    (h : (r.known ++ rules.flatMap fun rule => [rule.name, rule.id]).Nodup) :
    enter place title r rules =
      ({ r with table := r.table ++ rules.flatMap (entriesOf place) }, .ok ()) := by
  induction rules generalizing r with
  | nil => simp [enter]
  | cons rule rules ih =>
    have hname : r.table.lookup rule.name = none := by
      apply Lookup.eq_none_of_not_mem
      intro hmem
      exact (List.nodup_append.mp h).2.2 _ hmem _ (by simp) rfl
    have hid : r.table.lookup rule.id = none := by
      apply Lookup.eq_none_of_not_mem
      intro hmem
      exact (List.nodup_append.mp h).2.2 _ hmem _ (by simp) rfl
    simp only [enter, hname, hid]
    rw [ih]
    · simp [entriesOf]
    · simpa [known] using h

theorem register_ofCheckers (cs : List (CheckerEntry κ)) (s : Selection) (c : CheckerEntry κ)
    (h : (cs.flatMap (·.labels) ++ c.labels).Nodup) :
    (ofCheckers cs).register s c = (ofCheckers (cs ++ [c.select s]), .ok ()) := by
  have hnew : (({ ofCheckers cs with checkers := cs ++ [c.select s] } : Registry κ).known ++
      (c.select s).rules.flatMap fun rule => [rule.name, rule.id]).Nodup := by
    have hlabels : ((c.select s).rules.flatMap fun rule => [rule.name, rule.id]) = c.labels :=
      CheckerEntry.labels_select c s
    rw [hlabels]
    exact (known_ofCheckers cs).symm ▸ h
  have henter := enter_eq cs.length (c.select s).title _ _ hnew
  unfold register
  simp only [ofCheckers] at henter ⊢
  rw [henter]
  simp [tableFrom_append, tableFrom_singleton, List.range_succ]

end Registry

namespace Linter

theorem loadAll_ofCheckers (s : Selection) (host : Host) (cs : List (CheckerEntry Checker))
    (more : List Checker)
    (h : (cs.flatMap (·.labels) ++ more.flatMap fun c => (entry host c).labels).Nodup) :
    loadAll s host (.ofCheckers cs) more =
      .ok (.ofCheckers (cs ++ more.map fun c => (entry host c).select s)) := by
  induction more generalizing cs with
  | nil => simp [loadAll]
  | cons c more ih =>
    have hc : (cs.flatMap (·.labels) ++ (entry host c).labels).Nodup := by
      rw [List.flatMap_cons, ← List.append_assoc] at h
      exact (List.nodup_append.mp h).1
    rw [loadAll, Registry.register_ofCheckers cs s _ hc]
    simp only
    rw [ih]
    · simp
    · simpa using h

end Linter

namespace Text

/-- Texts with the characters that they are made of. -/
inductive Spelled : List String → List (List Char) → Prop
  | nil : Spelled [] []
  | cons {s : String} {chars : List Char} {ss : List String} {more : List (List Char)}
      (h : s = String.ofList chars) (hmore : Spelled ss more) : Spelled (s :: ss) (chars :: more)

/-- A number for a text. -/
def code (chars : List Char) : Nat := chars.foldl (fun n c => n * 1114112 + c.toNat) 0

private theorem Spelled.eq_map {ss : List String} {chars : List (List Char)} (h : Spelled ss chars) :
    ss = chars.map String.ofList := by
  induction h with
  | nil => rfl
  | cons h _ ih => rw [h, ih, List.map_cons]

private theorem Spelled.nodup {ss : List String} {chars : List (List Char)} (h : Spelled ss chars)
    (hcodes : (chars.map code).Nodup) : ss.Nodup := by
  have hchars : chars.Nodup :=
    List.Pairwise.of_map code (fun _ _ hne heq => hne (congrArg code heq)) hcodes
  rw [h.eq_map]
  exact List.Pairwise.map _ (fun _ _ hne heq => hne (String.ofList_injective heq)) hchars

private theorem nodup_of_residues {codes : List Nat} (m : Nat) (hm : 0 < m)
    (h : ∀ k < m, (codes.filter (· % m = k)).Nodup) : codes.Nodup := by
  rw [List.nodup_iff_count]
  intro code
  have hcount := List.nodup_iff_count.mp (h (code % m) (Nat.mod_lt code hm)) code
  rwa [List.count_filter (by simp)] at hcount

end Text

theorem Checker.labels_nodup :
    (Checker.all.flatMap fun c => c.keys.flatMap fun key => [key.name, key.id]).Nodup := by
  -- Numbers are compared faster than texts, and only those of one residue are compared.
  apply Text.Spelled.nodup
  · repeat apply Text.Spelled.cons rfl
    exact .nil
  · exact Text.nodup_of_residues 32 (by decide) (by decide +kernel)

namespace Linter

theorem load_eq (s : Selection) (host : Host) :
    load s host =
      .ok ⟨host, .ofCheckers (host.checkers.map fun c => (entry host c).select s), .blank⟩ := by
  have hlabels (c : Checker) :
      (entry host c).labels = c.keys.flatMap fun key => [key.name, key.id] := by
    simp [CheckerEntry.labels, entry, List.flatMap_map, RuleKey.rule]
  have hnodup := (host.checkers_perm.flatMap_right _).nodup_iff.mpr Checker.labels_nodup
  have h := loadAll_ofCheckers s host [] host.checkers (by simpa [hlabels] using hnodup)
  unfold load
  rw [show (Registry.empty : Registry Checker) = .ofCheckers [] from rfl, h]
  rfl

end Linter

end SuiteLint
