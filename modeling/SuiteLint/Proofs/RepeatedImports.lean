import SuiteLint.Proofs.RepeatedNames

/-!
# Imports and metadata that are declared twice

Imports and metadata are compared by the name and the values behind it, written one after the other without
anything between them. So one is also reported if an earlier one splits the same characters differently.
-/

namespace SuiteLint

/-! ## Two ways to be like an earlier one -/

theorem map_snd_laterRepeats {α : Type} (like : α → α → Bool) (before xs : List α) :
    (laterRepeats like before xs).map (·.2) =
      pickedAfter (fun before x => before.any (like · x)) before xs := by
  induction xs generalizing before with
  | nil => rfl
  | cons x xs ih =>
    rw [laterRepeats, pickedAfter, List.map_append, ih, ← List.isSome_find?]
    cases before.find? (like · x) <;> rfl

namespace Declaration

theorem joined_eq_of_parts_eq {u x : Declaration} (h : u.parts = x.parts) : u.joined = x.joined :=
  congrArg String.join h

private theorem any_sameJoined_of_sameParts {before : List Declaration} {x : Declaration}
    (h : before.any (·.sameParts x) = true) : before.any (·.sameJoined x) = true := by
  simp only [List.any_eq_true, sameParts, sameJoined, decide_eq_true_iff] at h ⊢
  obtain ⟨u, hu, hparts⟩ := h
  exact ⟨u, hu, joined_eq_of_parts_eq hparts⟩

def Unambiguous (xs : List Declaration) : Prop :=
  ∀ before x after, xs = before ++ x :: after → (∃ u ∈ before, u.joined = x.joined) →
    ∃ u ∈ before, u.parts = x.parts

/-- Then the first one that reads like a declaration has its parts. -/
theorem Unambiguous.find?_eq {xs : List Declaration} (h : Unambiguous xs) {front back : List Declaration}
    {x : Declaration} (hsplit : xs = front ++ x :: back) :
    front.find? (·.sameJoined x) = front.find? (·.sameParts x) := by
  cases hfind : front.find? (·.sameParts x) with
  | none =>
    rw [List.find?_eq_none] at hfind ⊢
    intro u hu hjoined
    obtain ⟨v, hv, hparts⟩ := h front x back hsplit ⟨u, hu, of_decide_eq_true hjoined⟩
    exact hfind v hv (decide_eq_true hparts)
  | some w =>
    obtain ⟨hw, early, late, rfl, hearly⟩ := List.find?_eq_some_iff_append.mp hfind
    have hparts : w.parts = x.parts := of_decide_eq_true hw
    refine List.find?_eq_some_iff_append.mpr
      ⟨decide_eq_true (joined_eq_of_parts_eq hparts), early, late, rfl, fun u hu => ?_⟩
    rw [Bool.not_eq_true', Bool.eq_false_iff]
    intro hjoined
    -- Else the first one with the parts would itself read like an earlier one without having its parts.
    have hlike : u.joined = w.joined := by
      rw [of_decide_eq_true hjoined, joined_eq_of_parts_eq hparts]
    obtain ⟨v, hv, hsame⟩ := h early w (late ++ x :: back) (by rw [hsplit]; simp) ⟨u, hu, hlike⟩
    have hnot := hearly v hv
    rw [Bool.not_eq_true', Bool.eq_false_iff] at hnot
    exact hnot (decide_eq_true (hsame.trans hparts))

/-- Reading alike gives no more repetitions than having the same parts exactly if no text is split in
two ways. -/
theorem length_laterRepeats_eq_iff (xs : List Declaration) :
    (laterRepeats sameJoined [] xs).length = (laterRepeats sameParts [] xs).length ↔ Unambiguous xs := by
  constructor
  · intro hlength
    have hpicked : (pickedAfter (fun before x => before.any (sameParts · x)) [] xs).length =
        (pickedAfter (fun before x => before.any (sameJoined · x)) [] xs).length := by
      rw [← map_snd_laterRepeats, ← map_snd_laterRepeats, List.length_map, List.length_map, hlength]
    have hsub : (pickedAfter (fun before x => before.any (sameParts · x)) [] xs).Sublist
        (pickedAfter (fun before x => before.any (sameJoined · x)) [] xs) :=
      pickedAfter_sublist fun _ _ _ _ => any_sameJoined_of_sameParts
    have hall := (pickedAfter_eq_iff fun _ _ _ _ => any_sameJoined_of_sameParts).mp
      (hsub.eq_of_length hpicked)
    intro before x after hxs hlike
    simpa [sameJoined, sameParts] using hall before x after hxs (by simpa [sameJoined] using hlike)
  · intro hclear
    rw [laterRepeats_congr fun front x back hsplit => hclear.find?_eq hsplit]

end Declaration

/-! ## What is reported -/

theorem DeclarationKind.perm_repeatEntries_iff (modern : Bool) (d : Document) (kind : DeclarationKind) :
    (kind.repeatEntries Declaration.sameJoined modern d).Perm
        (kind.repeatEntries Declaration.sameParts modern d) ↔
      Declaration.Unambiguous (kind.declarations modern d) := by
  constructor
  · intro hperm
    have hlength := hperm.length_eq
    rw [repeatEntries, repeatEntries, List.length_map, List.length_map] at hlength
    exact (Declaration.length_laterRepeats_eq_iff _).mp hlength
  · intro hclear
    rw [repeatEntries, repeatEntries,
      laterRepeats_congr fun front x back hsplit => hclear.find?_eq hsplit]

namespace Options

open Check.Duplicate

/-- Of a document that can be compared, each library (0805), metadata (0806) and variables import (0807) is
reported once that reads like an earlier one, name and values together. These are the ones that have the name
and values of an earlier one exactly if each one that reads like an earlier one also has the name and values
of an earlier one. -/
theorem repeated_imports_iff (o : Options) {host : Host} {notes : List String} {s : Setup}
    (h : o.setup host = (notes, .ok s)) (memory : Memory) (subject : Subject) :
    ((∃ issues, (s.linter.withMemory memory).scan .duplications subject = .ok issues) ↔
        IsReadable subject.document) ∧
      ∀ issues, (s.linter.withMemory memory).scan .duplications subject = .ok issues →
        ∀ kind ∈ [DeclarationKind.library, .metadata, .variablesImport],
          s.linter.registry.enables kind.rule.id = true →
            ((Issue.among [kind.rule] issues).map Issue.entry).Perm
                (kind.repeatEntries Declaration.sameJoined host.modern subject.document) ∧
              (((Issue.among [kind.rule] issues).map Issue.entry).Perm
                  (kind.repeatEntries Declaration.sameParts host.modern subject.document) ↔
                Declaration.Unambiguous (kind.declarations host.modern subject.document)) := by
  refine ⟨o.scan_duplications_iff h memory subject, fun issues hissues kind _ hon => ?_⟩
  have hreported := o.scan_duplications h memory subject hissues hon
  refine ⟨hreported, ?_⟩
  rw [← DeclarationKind.perm_repeatEntries_iff]
  exact ⟨hreported.symm.trans, hreported.trans⟩

end Options

/-- Imports and metadata of which some have the name and values of an earlier one. -/
def Subject.repeatedImports : Subject :=
  ⟨"a.robot", .text [], ⟨none, [⟨.settings, none,
    [.leaf (.setting .libraryImport .library 2 "Lib" ["a", "b"]),
      .leaf (.setting .libraryImport .library 3 "Lib" ["b", "a"]),
      .leaf (.setting .libraryImport .library 4 "Lib" ["a", "b"]),
      .leaf (.setting .metadata .metadata 5 "Version" ["1"]),
      .leaf (.setting .metadata .metadata 6 "Version" ["2"]),
      .leaf (.setting .variablesImport .variablesFile 7 "vars.py" ["a"]),
      .leaf (.setting .variablesImport .variablesFile 8 "vars.py" ["a"])]⟩]⟩⟩

/-- Imports and metadata in which the same characters are split in two ways. -/
def Subject.splitImports : Subject :=
  ⟨"a.robot", .text [], ⟨none, [⟨.settings, none,
    [.leaf (.setting .libraryImport .library 2 "Lib" ["a", "b"]),
      .leaf (.setting .libraryImport .library 3 "Lib" ["ab"]),
      .leaf (.setting .metadata .metadata 4 "Version" ["10"]),
      .leaf (.setting .metadata .metadata 5 "Version1" ["0"]),
      .leaf (.setting .variablesImport .variablesFile 6 "vars.py" ["a", "b"]),
      .leaf (.setting .variablesImport .variablesFile 7 "vars.py" ["ab"])]⟩]⟩⟩

namespace Options

open Check.Duplicate

theorem repeated_imports_iff_repeatedImports :
    ∃ (s : Setup) (issues : List Issue), standard.setup .plain = ([], .ok s) ∧
      IsReadable Subject.repeatedImports.document ∧
      s.linter.scan .duplications .repeatedImports = .ok issues ∧
      s.linter.registry.enables "0805" = true ∧
      ((Issue.among [.duplicatedLibrary] issues).map Issue.entry).Perm
        [("0805", "Multiple library imports with name \"Lib\" and identical arguments " ++
          "(first occurrence in line 2)", 4, 1)] ∧
      Declaration.Unambiguous (DeclarationKind.library.declarations true
        Subject.repeatedImports.document) ∧
      s.linter.registry.enables "0806" = true ∧
      ((Issue.among [.duplicatedMetadata] issues).map Issue.entry).Perm [] ∧
      s.linter.registry.enables "0807" = true ∧
      ((Issue.among [.duplicatedVariablesImport] issues).map Issue.entry).Perm
        [("0807", "Duplicated variables import with path \"vars.py\" (first occurrence in line 7)",
          8, 1)] := by
  have hsetup := setup_standard .plain
  have hread : IsReadable Subject.repeatedImports.document := by decide +kernel
  obtain ⟨hiff, hreported⟩ := repeated_imports_iff standard hsetup .blank .repeatedImports
  obtain ⟨issues, hissues⟩ := hiff.mpr hread
  have hon (kind : DeclarationKind) := enables_standard hsetup kind.rule
  obtain ⟨hlibraries, hclear⟩ := hreported issues hissues .library (by decide) (hon .library)
  have hmetadata := (hreported issues hissues .metadata (by decide) (hon .metadata)).1
  have hvariables := (hreported issues hissues .variablesImport (by decide) (hon .variablesImport)).1
  refine ⟨_, issues, hsetup, hread, hissues, hon .library, hlibraries.trans (.of_eq ?_),
    hclear.mp (hlibraries.trans (.of_eq ?_)), hon .metadata, hmetadata.trans (.of_eq ?_),
    hon .variablesImport, hvariables.trans (.of_eq ?_)⟩
  all_goals decide +kernel

/-- Imports and metadata are taken for repeated, though no two have the same name and values. -/
theorem split_imports_taken_for_repeated :
    ∃ (s : Setup) (issues : List Issue), standard.setup .plain = ([], .ok s) ∧
      s.linter.scan .duplications .splitImports = .ok issues ∧
      (Issue.among [.duplicatedLibrary] issues).map Issue.entry =
        [("0805", "Multiple library imports with name \"Lib\" and identical arguments " ++
          "(first occurrence in line 2)", 3, 1)] ∧
      (Issue.among [.duplicatedMetadata] issues).map Issue.entry =
        [("0806", "Duplicated metadata \"Version1\" (first occurrence in line 4)", 5, 1)] ∧
      (Issue.among [.duplicatedVariablesImport] issues).map Issue.entry =
        [("0807", "Duplicated variables import with path \"vars.py\" (first occurrence in line 6)",
          7, 1)] ∧
      ∀ kind ∈ [DeclarationKind.library, .metadata, .variablesImport],
        kind.repeatEntries Declaration.sameParts true Subject.splitImports.document = [] := by
  have hsetup := setup_standard .plain
  have hread : IsReadable Subject.splitImports.document := by decide +kernel
  obtain ⟨issues, hissues⟩ := (scan_duplications_iff standard hsetup .blank .splitImports).mpr hread
  have hreported (kind : DeclarationKind) := scan_duplications standard hsetup .blank
    .splitImports hissues (enables_standard hsetup kind.rule)
  refine ⟨_, issues, hsetup, hissues, List.perm_singleton.mp ((hreported .library).trans (.of_eq ?_)),
    List.perm_singleton.mp ((hreported .metadata).trans (.of_eq ?_)),
    List.perm_singleton.mp ((hreported .variablesImport).trans (.of_eq ?_)), ?_⟩
  all_goals decide +kernel

end Options

end SuiteLint
