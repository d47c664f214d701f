import Mathlib.Data.List.Infix
import Mathlib.Data.List.Nodup
import SuiteLint.Project.Scan
import SuiteLint.Proofs.TextParts

/-!
# What the files of a run are read as

Files are read as their names tell, and those that some of them import are read again, as resources. The
imports are followed when all files have been read, so the order of the files makes no difference.
-/

namespace SuiteLint

/-! ## Paths without upward parts -/

namespace Path

def ascend (rooted : Bool) (done : List String) (part : String) : List String :=
  if part = ".." then
    match done with
    | above :: rest => if above = ".." then part :: above :: rest else rest
    | [] => if rooted then [] else [part]
  else part :: done

@[simp] theorem resolve_cons (rooted : Bool) (done parts : List String) (part : String) :
    resolve rooted done (part :: parts) = resolve rooted (ascend rooted done part) parts := by
  unfold ascend
  by_cases hup : part = ".."
  · cases done with
    | nil => cases rooted <;> simp [resolve, hup]
    | cons above rest => by_cases habove : above = ".." <;> simp [resolve, hup, habove]
  · simp [resolve, hup]

theorem resolve_eq_foldl (rooted : Bool) (done parts : List String) :
    resolve rooted done parts = (parts.foldl (ascend rooted) done).reverse := by
  induction parts generalizing done with
  | nil => rfl
  | cons part parts ih => rw [resolve_cons, ih, List.foldl_cons]

theorem ascend_of_ne {rooted : Bool} {done : List String} {part : String} (h : part ≠ "..") :
    ascend rooted done part = part :: done := if_neg h

private theorem ascend_ascend {rooted : Bool} {done : List String} {part : String} (h : part ≠ "..") :
    ascend rooted (ascend rooted done part) ".." = done := by
  rw [ascend_of_ne h, ascend, if_pos rfl]
  exact if_neg h

/-- Resolving a relative path first makes no difference to what it leads to from another place. -/
theorem foldl_resolve (rooted : Bool) (start done parts : List String) :
    (resolve false done parts).foldl (ascend rooted) start =
      parts.foldl (ascend rooted) (done.reverse.foldl (ascend rooted) start) := by
  induction parts generalizing done with
  | nil => rfl
  | cons part parts ih =>
    have hpush : (part :: done).reverse.foldl (ascend rooted) start =
        ascend rooted (done.reverse.foldl (ascend rooted) start) part := by
      rw [List.reverse_cons, List.foldl_append]
      rfl
    rw [resolve_cons, ih, List.foldl_cons, ← hpush]
    by_cases hup : part = ".."
    · subst hup
      cases done with
      | nil => rfl
      | cons above rest =>
        by_cases habove : above = ".."
        · rw [ascend, if_pos rfl]
          simp only [if_pos habove]
        · -- the part above goes, on both sides
          have hrest : ascend false (above :: rest) ".." = rest := by
            rw [← ascend_of_ne habove]
            exact ascend_ascend habove
          rw [hrest, hpush, List.reverse_cons, List.foldl_append, List.foldl_cons, List.foldl_nil,
            ascend_ascend habove]
    · rw [ascend_of_ne hup]

theorem resolve_of_plain {rooted : Bool} {done parts : List String} (h : ".." ∉ parts) :
    resolve rooted done parts = done.reverse ++ parts := by
  induction parts generalizing done with
  | nil => rw [resolve, List.append_nil]
  | cons part parts ih =>
    rw [List.mem_cons, not_or] at h
    rw [resolve_cons, ascend_of_ne (Ne.symm h.1), ih h.2, List.reverse_cons, List.append_assoc,
      List.singleton_append]

theorem not_mem_resolve {done parts : List String} (h : ".." ∉ done) :
    ".." ∉ resolve true done parts := by
  induction parts generalizing done with
  | nil => rwa [resolve, List.mem_reverse]
  | cons part parts ih =>
    rw [resolve_cons]
    apply ih
    by_cases hup : part = ".."
    · cases done with
      | nil => simp [ascend, hup]
      | cons above rest =>
        rw [List.mem_cons, not_or] at h
        simpa [ascend, hup, Ne.symm h.1] using h.2
    · rw [ascend_of_ne hup, List.mem_cons, not_or]
      exact ⟨Ne.symm hup, h⟩

theorem normalized_of_plain {p : Path} (h : ".." ∉ p.parts) : p.normalized = p := by
  rw [normalized, resolve_of_plain h]
  rfl

theorem normalized_join (p q : Path) : (p.join q.normalized).normalized = (p.join q).normalized := by
  by_cases hq : q.isAbsolute = true
  · have hplain : ".." ∉ q.normalized.parts := by
      rw [normalized, hq]
      exact not_mem_resolve List.not_mem_nil
    have hleft : p.join q.normalized = q.normalized := if_pos hq
    have hright : p.join q = q := if_pos hq
    rw [hleft, hright, normalized_of_plain hplain]
  · have hleft : p.join q.normalized = { p with parts := p.parts ++ q.normalized.parts } := if_neg hq
    have hright : p.join q = { p with parts := p.parts ++ q.parts } := if_neg hq
    have hparts : q.normalized.parts = resolve false [] q.parts := by
      rw [normalized, Bool.eq_false_iff.mpr hq]
    have hresolve (rooted : Bool) : resolve rooted [] (p.parts ++ q.normalized.parts) =
        resolve rooted [] (p.parts ++ q.parts) := by
      rw [hparts, resolve_eq_foldl rooted [] (p.parts ++ _), List.foldl_append, foldl_resolve,
        resolve_eq_foldl, List.foldl_append]
      rfl
    rw [hleft, hright]
    exact congrArg (Path.mk p.root) (hresolve _)

end Path

/-! ## Which files are read, and as what -/

def SuiteFile.ReadsAlike (f : SuiteFile) : Prop :=
  ∀ kind other : FileKind, (f.read kind).isSome = (f.read other).isSome

def Wanted.admits (w : Wanted) (p : Path) : Bool :=
  p.fitsAny? w.ignored = some false && p.hasType w.types

namespace Project

variable (project : Project)

/-- The document at a path, if it is read as a file of some kind. -/
def read? (p : Path) (kind : FileKind) : Option Document :=
  ((project.file? p).bind fun f => f.read kind).map fun d => { d with source := p.toString }

/-- An import in some file leads to a path: there is a file, and it is the one that the import names
from the directory of its own file, with all upward parts resolved. -/
def Leads (importer : Path) (s : Statement) (goal : Path) : Prop :=
  let directory := importer.parent
  let name := Path.fillIn (s.name?.getD "None") directory.toString project.cwd.toString
  project.isFile goal = true ∧ (directory.join (Path.ofString name)).normalized = goal.normalized

def Imports (importer goal : Path) : Prop :=
  ∃ d, project.read? importer (.ofPath importer) = some d ∧
    ∃ s ∈ d.statementsOf .resourceImport, project.Leads importer s goal

open Classical in
noncomputable def kindAmong (scanned : List Path) (p : Path) : FileKind :=
  if ∃ importer ∈ scanned, project.Imports importer p then .resource
  else if "__init__".toList <:+: p.name.toList then .init
  else if Text.lower p.suffix.toList = ".resource".toList then .resource
  else .general

/-- What can be given to a run as a file: no part of its path leads upward, and whether it can be read
does not depend on the kind that it is read as. -/
structure Offers (p : Path) : Prop where
  isFile : project.isFile p = true
  plain : ".." ∉ (project.absolute p).parts
  alike : ∀ file, project.file? p = some file → file.ReadsAlike

def wantedAmong (w : Wanted) (given : List Path) : List Path :=
  (given.filter w.admits).map project.absolute

def scanned (w : Wanted) (given : List Path) : Scan :=
  Scan.ofPaths project ((project.gather w given).paths.map project.absolute)

variable {project} {w : Wanted} {given : List Path}

theorem absolute_absolute (h : project.cwd.isAbsolute = true) (p : Path) :
    project.absolute (project.absolute p) = project.absolute p := by
  have habsolute : (project.absolute p).isAbsolute = true := by
    unfold absolute Path.join
    split
    · assumption
    · exact h
  exact if_pos habsolute

private theorem file?_absolute (h : project.cwd.isAbsolute = true) (p : Path) :
    project.file? (project.absolute p) = project.file? p := by
  rw [file?, find?, absolute_absolute h]
  rfl

theorem isSome_read? {p : Path} (h : ∀ file, project.file? p = some file → file.ReadsAlike)
    (kind other : FileKind) :
    (project.read? p kind).isSome = (project.read? p other).isSome := by
  rw [read?, read?, Option.isSome_map, Option.isSome_map]
  cases hfile : project.file? p with
  | none => rfl
  | some file => exact h file hfile kind other

theorem gatherPath_of_isFile {p : Path} (h : project.isFile p = true) :
    project.gatherPath w p =
      Tree.unlessIgnored w p ⟨if p.hasType w.types then [p] else [], none⟩ := by
  rw [isFile, file?] at h
  unfold gatherPath
  cases hfind : project.find? p with
  | none => simp [hfind] at h
  | some t =>
    cases t with
    | file f => simp only [Tree.gather]
    | directory entries => simp [hfind, Tree.file?] at h

theorem gather_of_isFile (h : ∀ p ∈ given, project.isFile p = true) :
    (project.gather w given).error = none ↔ ∀ p ∈ given, (p.fitsAny? w.ignored).isSome = true := by
  induction given with
  | nil => simp [gather, Gathered.none]
  | cons p given ih =>
    rw [List.forall_mem_cons] at h
    rw [gather, gatherPath_of_isFile h.1, List.forall_mem_cons, ← ih h.2, Tree.unlessIgnored]
    cases hfits : p.fitsAny? w.ignored with
    | none => simp [Gathered.append]
    | some ignored => cases ignored <;> simp [Gathered.append, Gathered.none]

theorem paths_gather (h : ∀ p ∈ given, project.isFile p = true)
    (hfits : ∀ p ∈ given, (p.fitsAny? w.ignored).isSome = true) :
    (project.gather w given).paths = given.filter w.admits := by
  induction given with
  | nil => rfl
  | cons p given ih =>
    rw [List.forall_mem_cons] at h hfits
    obtain ⟨ignored, hp⟩ := Option.isSome_iff_exists.mp hfits.1
    rw [gather, gatherPath_of_isFile h.1, Tree.unlessIgnored, hp, List.filter_cons, Wanted.admits, hp,
      ← ih h.2 hfits.2]
    cases ignored with
    | true => simp [Gathered.append, Gathered.none]
    | false => cases p.hasType w.types <;> simp [Gathered.append]

end Project

/-! ## The scan -/

namespace Scan

variable {project : Project} {paths : List Path}

/-- Where an import leads, without the resolving on the way. -/
theorem importTarget?_eq_some_iff {importer goal : Path} {s : Statement} (h : ".." ∉ goal.parts) :
    importTarget? project importer s = some goal ↔ project.Leads importer s goal := by
  simp only [importTarget?, Project.Leads, Path.normalized_join, Path.normalized_of_plain h]
  split
  · next hfile =>
    constructor
    · intro hgoal
      rw [← Option.some.inj hgoal]
      exact ⟨hfile, rfl⟩
    · rintro ⟨-, hgoal⟩
      rw [hgoal]
  · next hfile =>
    constructor
    · intro hgoal
      cases hgoal
    · rintro ⟨hisFile, rfl⟩
      exact absurd hisFile hfile

/-- A file as it is read at first, by its name. -/
def first? (project : Project) (p : Path) : Option Scanned :=
  (project.read? p (.ofPath p)).map fun d => ⟨p, .ofPath p, d⟩

private theorem files_add (scan : Scan) (p : Path) :
    (add project scan p).files = (first? project p).elim scan.files (enter · scan.files) := by
  simp only [add, first?, Project.read?, Option.map_map]
  cases (project.file? p).bind fun f => f.read (FileKind.ofPath p) <;> rfl

private theorem path_of_first? {p : Path} {f : Scanned} (h : first? project p = some f) : f.path = p := by
  obtain ⟨d, -, rfl⟩ := Option.map_eq_some_iff.mp h
  rfl

theorem mem_enter {new f : Scanned} {files : List Scanned} (h : (files.map (·.path)).Nodup) :
    f ∈ enter new files ↔ f = new ∨ f ∈ files ∧ f.path ≠ new.path := by
  induction files with
  | nil => simp [enter]
  | cons g files ih =>
    rw [List.map_cons, List.nodup_cons] at h
    rw [enter]
    split
    · next hpath =>
      have hrest : f ∈ files → f.path ≠ new.path := by
        rintro hf heq
        exact h.1 (List.mem_map.mpr ⟨f, hf, heq.trans hpath.symm⟩)
      rw [List.mem_cons, List.mem_cons]
      constructor
      · rintro (rfl | hf)
        · exact Or.inl rfl
        · exact Or.inr ⟨Or.inr hf, hrest hf⟩
      · rintro (rfl | ⟨rfl | hf, hne⟩)
        · exact Or.inl rfl
        · exact absurd hpath hne
        · exact Or.inr hf
    · next hpath =>
      rw [List.mem_cons, List.mem_cons, ih h.2]
      constructor
      · rintro (rfl | rfl | ⟨hf, hne⟩)
        · exact Or.inr ⟨Or.inl rfl, hpath⟩
        · exact Or.inl rfl
        · exact Or.inr ⟨Or.inr hf, hne⟩
      · rintro (rfl | ⟨rfl | hf, hne⟩)
        · exact Or.inr (Or.inl rfl)
        · exact Or.inl rfl
        · exact Or.inr (Or.inr ⟨hf, hne⟩)

theorem nodup_enter {new : Scanned} {files : List Scanned} (h : (files.map (·.path)).Nodup) :
    ((enter new files).map (·.path)).Nodup := by
  induction files with
  | nil => simp [enter]
  | cons g files ih =>
    have hmore := h
    rw [List.map_cons, List.nodup_cons] at h
    rw [enter]
    split
    · next hpath =>
      rw [List.map_cons, ← hpath]
      exact hmore
    · next hpath =>
      rw [List.map_cons, List.nodup_cons]
      refine ⟨?_, ih h.2⟩
      intro hmem
      obtain ⟨f, hf, hfg⟩ := List.mem_map.mp hmem
      rcases (mem_enter h.2).mp hf with rfl | ⟨hf, -⟩
      · exact hpath hfg.symm
      · exact h.1 (List.mem_map.mpr ⟨f, hf, hfg⟩)

/-- The files of a scan: no path stands twice, and those of some paths are there as they are read at
first. -/
structure Holds (project : Project) (files : List Scanned) (paths : List Path) : Prop where
  nodup : (files.map (·.path)).Nodup
  mem_iff : ∀ f, f ∈ files ↔ f.path ∈ paths ∧ first? project f.path = some f

theorem Holds.add {scan : Scan} (h : Holds project scan.files paths) (p : Path) :
    Holds project (add project scan p).files (paths ++ [p]) := by
  rw [files_add]
  cases hfirst : first? project p with
  | none =>
    refine ⟨h.nodup, fun f => ?_⟩
    rw [Option.elim_none, h.mem_iff, List.mem_append, List.mem_singleton]
    constructor
    · rintro ⟨hmem, hf⟩
      exact ⟨Or.inl hmem, hf⟩
    · rintro ⟨hmem | rfl, hf⟩
      · exact ⟨hmem, hf⟩
      · rw [hfirst] at hf
        cases hf
  | some new =>
    have hnew : new.path = p := path_of_first? hfirst
    refine ⟨nodup_enter h.nodup, fun f => ?_⟩
    rw [Option.elim_some, mem_enter h.nodup, h.mem_iff, List.mem_append, List.mem_singleton]
    constructor
    · rintro (rfl | ⟨⟨hmem, hf⟩, -⟩)
      · exact ⟨Or.inr hnew, by rw [hnew, hfirst]⟩
      · exact ⟨Or.inl hmem, hf⟩
    · rintro ⟨hmem, hf⟩
      by_cases heq : f.path = new.path
      · rw [heq, hnew, hfirst] at hf
        exact Or.inl (Option.some.inj hf).symm
      · rcases hmem with hmem | hp
        · exact Or.inr ⟨⟨hmem, hf⟩, heq⟩
        · exact absurd (hp.trans hnew.symm) heq

theorem holds_foldl_add {scan : Scan} {before : List Path} (h : Holds project scan.files before) :
    Holds project (paths.foldl (add project) scan).files (before ++ paths) := by
  induction paths generalizing scan before with
  | nil => rwa [List.append_nil]
  | cons p paths ih =>
    rw [List.foldl_cons, List.append_cons]
    exact ih (h.add p)

theorem holds_none : Holds project none.files [] := ⟨List.nodup_nil, fun f => by simp [none]⟩

/-- A file is among those that are read again exactly if a file that was read imports it. -/
theorem contains_imports_iff {files : List Scanned} (h : Holds project files paths) {p : Path}
    (hplain : ".." ∉ p.parts) :
    (files.flatMap (imports project)).contains p = true ↔
      ∃ importer ∈ paths, project.Imports importer p := by
  rw [List.contains_iff_mem, List.mem_flatMap]
  constructor
  · rintro ⟨f, hf, hp⟩
    obtain ⟨hmem, hfirst⟩ := (h.mem_iff f).mp hf
    obtain ⟨d, hd, hfd⟩ := Option.map_eq_some_iff.mp hfirst
    obtain ⟨s, hs, htarget⟩ := List.mem_filterMap.mp hp
    rw [← hfd] at hs
    exact ⟨f.path, hmem, d, hd, s, hs, (importTarget?_eq_some_iff hplain).mp htarget⟩
  · rintro ⟨importer, hmem, d, hd, s, hs, hleads⟩
    refine ⟨⟨importer, .ofPath importer, d⟩, (h.mem_iff _).mpr ⟨hmem, ?_⟩, ?_⟩
    · rw [first?, hd]
      rfl
    · exact List.mem_filterMap.mpr ⟨s, hs, (importTarget?_eq_some_iff hplain).mpr hleads⟩

private theorem asResource_of_read? {f : Scanned} {d : Document}
    (h : project.read? f.path .resource = some d) : asResource project f = ⟨f.path, .resource, d⟩ := by
  obtain ⟨raw, hraw, rfl⟩ := Option.map_eq_some_iff.mp h
  rw [asResource, hraw]

private theorem path_asResource (f : Scanned) : (asResource project f).path = f.path := by
  unfold asResource
  split <;> rfl

theorem map_path_settle (files : List Scanned) :
    (settle project files).map (·.path) = files.map (·.path) := by
  rw [settle, List.map_map]
  apply List.map_congr_left
  intro f _
  rw [Function.comp_apply]
  split
  · exact path_asResource f
  · rfl

private theorem kindAmong_of_not_imported {p : Path}
    (h : ¬ ∃ importer ∈ paths, project.Imports importer p) :
    project.kindAmong paths p = .ofPath p := by
  rw [Project.kindAmong, if_neg h, FileKind.ofPath]
  simp only [Text.has_iff]

/-- A file of the scan has the kind that is due to it, and the document of that kind. -/
theorem mem_ofPaths (hplain : ∀ p ∈ paths, ".." ∉ p.parts)
    (halike : ∀ p ∈ paths, ∀ file, project.file? p = some file → file.ReadsAlike) (f : Scanned) :
    f ∈ (ofPaths project paths).files ↔
      f.path ∈ paths ∧ f.kind = project.kindAmong paths f.path ∧
        project.read? f.path f.kind = some f.document := by
  have hholds : Holds project (paths.foldl (add project) none).files paths := by
    simpa using @holds_foldl_add project paths none [] holds_none
  rw [ofPaths, settle, List.mem_map]
  constructor
  · rintro ⟨g, hg, rfl⟩
    obtain ⟨hmem, hfirst⟩ := (hholds.mem_iff g).mp hg
    obtain ⟨d, hd, hgd⟩ := Option.map_eq_some_iff.mp hfirst
    have himported := contains_imports_iff hholds (hplain g.path hmem)
    split
    · next hresource =>
      have hsome : (project.read? g.path .resource).isSome = true := by
        rw [Project.isSome_read? (halike g.path hmem) .resource (.ofPath g.path), hd]
        rfl
      obtain ⟨e, he⟩ := Option.isSome_iff_exists.mp hsome
      rw [asResource_of_read? he, Project.kindAmong, if_pos (himported.mp hresource)]
      exact ⟨hmem, rfl, he⟩
    · next hresource =>
      rw [kindAmong_of_not_imported fun h => hresource (himported.mpr h)]
      rw [← hgd]
      exact ⟨hmem, rfl, hd⟩
  · rintro ⟨hmem, hkind, hread⟩
    have hsome : (project.read? f.path (.ofPath f.path)).isSome = true := by
      rw [Project.isSome_read? (halike f.path hmem) (.ofPath f.path) f.kind, hread]
      rfl
    obtain ⟨d, hd⟩ := Option.isSome_iff_exists.mp hsome
    have hg : (⟨f.path, .ofPath f.path, d⟩ : Scanned) ∈ (paths.foldl (add project) none).files := by
      refine (hholds.mem_iff _).mpr ⟨hmem, ?_⟩
      rw [first?, hd]
      rfl
    refine ⟨_, hg, ?_⟩
    have himported := contains_imports_iff hholds (hplain f.path hmem)
    split
    · next hresource =>
      rw [Project.kindAmong, if_pos (himported.mp hresource)] at hkind
      rw [hkind] at hread
      rw [@asResource_of_read? project ⟨f.path, _, d⟩ _ hread, ← hkind]
    · next hresource =>
      rw [kindAmong_of_not_imported fun h => hresource (himported.mpr h)] at hkind
      rw [hkind, hd] at hread
      rw [Option.some.inj hread, ← hkind]

theorem nodup_ofPaths : ((ofPaths project paths).files.map (·.path)).Nodup := by
  have hholds := @holds_foldl_add project paths none [] holds_none
  rw [ofPaths, map_path_settle]
  exact hholds.nodup

/-- What a scan has at a path: a kind and a document. -/
def at? (scan : Scan) (p : Path) : Option (FileKind × Document) :=
  (scan.files.find? (·.path = p)).map fun f => (f.kind, f.document)

theorem at?_eq_some_iff {scan : Scan} (h : (scan.files.map (·.path)).Nodup) {p : Path}
    {kind : FileKind} {d : Document} : scan.at? p = some (kind, d) ↔ ⟨p, kind, d⟩ ∈ scan.files := by
  rw [at?, Option.map_eq_some_iff]
  constructor
  · rintro ⟨f, hfind, hf⟩
    have hpath : f.path = p := by simpa using List.find?_some hfind
    obtain ⟨rfl, rfl⟩ := Prod.mk.inj hf
    rw [← hpath]
    exact List.mem_of_find?_eq_some hfind
  · intro hmem
    cases hfind : scan.files.find? (·.path = p) with
    | none =>
      have hother := List.find?_eq_none.mp hfind _ hmem
      exact absurd (decide_eq_true rfl) hother
    | some f =>
      have hpath : f.path = p := by simpa using List.find?_some hfind
      have hsame : f = ⟨p, kind, d⟩ :=
        List.inj_on_of_nodup_map h (List.mem_of_find?_eq_some hfind) hmem hpath
      exact ⟨f, rfl, by rw [hsame]⟩

end Scan

namespace Project

variable {project : Project} {w : Wanted} {given : List Path}

private theorem kindAmong_congr {scanned others : List Path} (h : ∀ p, p ∈ others ↔ p ∈ scanned) (p : Path) :
    project.kindAmong others p = project.kindAmong scanned p := by
  have hset : (∃ importer ∈ others, project.Imports importer p) =
      ∃ importer ∈ scanned, project.Imports importer p := by simp only [h]
  unfold kindAmong
  congr

private theorem mem_wantedAmong_of_perm {others : List Path} (h : others.Perm given) (p : Path) :
    p ∈ project.wantedAmong w others ↔ p ∈ project.wantedAmong w given :=
  ((h.filter w.admits).map project.absolute).mem_iff

/-- A wanted file has no upward parts in its path, and can be read as a file of any kind or of none. -/
theorem Offers.of_mem_wantedAmong (hcwd : project.cwd.isAbsolute = true)
    (h : ∀ p ∈ given, project.Offers p) {p : Path} (hp : p ∈ project.wantedAmong w given) :
    ".." ∉ p.parts ∧ ∀ file, project.file? p = some file → file.ReadsAlike := by
  obtain ⟨q, hq, rfl⟩ := List.mem_map.mp hp
  have hoffers := h q (List.mem_filter.mp hq).1
  refine ⟨hoffers.plain, ?_⟩
  rw [file?_absolute hcwd]
  exact hoffers.alike

private theorem scanned_eq (h : ∀ p ∈ given, project.isFile p = true)
    (hanswer : (project.gather w given).error = none) :
    project.scanned w given = .ofPaths project (project.wantedAmong w given) := by
  rw [scanned, paths_gather h ((gather_of_isFile h).mp hanswer)]
  rfl

theorem mem_scanned (hcwd : project.cwd.isAbsolute = true) (h : ∀ p ∈ given, project.Offers p)
    (hanswer : (project.gather w given).error = none) (f : Scanned) :
    f ∈ (project.scanned w given).files ↔
      f.path ∈ project.wantedAmong w given ∧
        f.kind = project.kindAmong (project.wantedAmong w given) f.path ∧
        project.read? f.path f.kind = some f.document := by
  rw [scanned_eq (fun p hp => (h p hp).isFile) hanswer]
  exact Scan.mem_ofPaths (fun p hp => (Offers.of_mem_wantedAmong hcwd h hp).1)
    (fun p hp => (Offers.of_mem_wantedAmong hcwd h hp).2) f

private theorem scanned_at? {p : Path} {kind : FileKind} {d : Document} :
    (project.scanned w given).at? p = some (kind, d) ↔
      ⟨p, kind, d⟩ ∈ (project.scanned w given).files := Scan.at?_eq_some_iff Scan.nodup_ofPaths

/-- A run that is given files keeps those that are wanted and can be read, each path once. A file is a
resource if a `Resource` setting of one of them imports it, and else what its name tells; its document is the
one of that kind. If the files are given in another order, every path has the same kind and document. -/
theorem kinds_fixed_by_set (project : Project) (w : Wanted) (given : List Path)
    (hcwd : project.cwd.isAbsolute = true) (hgiven : ∀ p ∈ given, project.Offers p)
    (hanswer : (project.gather w given).error = none) :
    ((project.scanned w given).files.map (·.path)).Nodup ∧
      (∀ p, p ∈ (project.scanned w given).files.map (·.path) ↔
        p ∈ project.wantedAmong w given ∧ ∃ d, project.read? p (.ofPath p) = some d) ∧
      (∀ f ∈ (project.scanned w given).files,
        f.kind = project.kindAmong (project.wantedAmong w given) f.path ∧
          project.read? f.path f.kind = some f.document) ∧
      ∀ others : List Path, others.Perm given →
        (project.gather w others).error = none ∧
          ∀ p, (project.scanned w others).at? p = (project.scanned w given).at? p := by
  have hmem := mem_scanned hcwd hgiven hanswer
  refine ⟨Scan.nodup_ofPaths, ?_, fun f hf => ((hmem f).mp hf).2, ?_⟩
  · intro p
    rw [List.mem_map]
    constructor
    · rintro ⟨f, hf, rfl⟩
      obtain ⟨hpath, -, hread⟩ := (hmem f).mp hf
      have halike := (Offers.of_mem_wantedAmong hcwd hgiven hpath).2
      refine ⟨hpath, Option.isSome_iff_exists.mp ?_⟩
      rw [isSome_read? halike _ f.kind, hread]
      rfl
    · rintro ⟨hpath, d, hd⟩
      have halike := (Offers.of_mem_wantedAmong hcwd hgiven hpath).2
      have hsome : (project.read? p (project.kindAmong (project.wantedAmong w given) p)).isSome = true := by
        rw [isSome_read? halike _ (.ofPath p), hd]
        rfl
      obtain ⟨e, he⟩ := Option.isSome_iff_exists.mp hsome
      exact ⟨⟨p, _, e⟩, (hmem _).mpr ⟨hpath, rfl, he⟩, rfl⟩
  · intro others hperm
    have hothers : ∀ p ∈ others, project.Offers p := fun p hp => hgiven p (hperm.mem_iff.mp hp)
    have hanswer' : (project.gather w others).error = none := by
      rw [gather_of_isFile fun p hp => (hothers p hp).isFile]
      intro p hp
      exact (gather_of_isFile fun p hp => (hgiven p hp).isFile).mp hanswer p (hperm.mem_iff.mp hp)
    have hmem' := mem_scanned hcwd hothers hanswer'
    refine ⟨hanswer', fun p => Option.ext fun entry => ?_⟩
    obtain ⟨kind, d⟩ := entry
    rw [scanned_at?, scanned_at?, hmem, hmem', mem_wantedAmong_of_perm hperm,
      kindAmong_congr (mem_wantedAmong_of_perm hperm)]

def importing (name : String) : Document :=
  ⟨none, [⟨.settings, none,
    [.leaf ⟨.resourceImport, [⟨.resource, "Resource", 2, 0⟩, ⟨.name, name, 2, 12⟩], []⟩]⟩]⟩

/-- Two files that import each other, and one that cannot be read. -/
def withMutualImports : Project where
  tree := .directory [("proj", .directory
    [("a.robot", .file ⟨[], fun _ => some (importing "none/../b.robot")⟩),
      ("b.robot", .file ⟨[], fun _ => some (importing "$\x7bCURDIR\x7d$\x7b/\x7da.robot")⟩),
      ("c.robot", .file (.plain [255]))])]
  cwd := ⟨"/", ["proj"]⟩
  modules := []
  written := []
  readToml _ := none

def mutualImports : List Path := [⟨"", ["a.robot"]⟩, ⟨"", ["b.robot"]⟩, ⟨"", ["c.robot"]⟩]

theorem offers_mutualImports : ∀ p ∈ mutualImports, withMutualImports.Offers p := by
  have hfile : ∀ p ∈ mutualImports, withMutualImports.isFile p = true := by decide
  have hplain : ∀ p ∈ mutualImports, ".." ∉ (withMutualImports.absolute p).parts := by decide
  intro p hp
  refine ⟨hfile p hp, hplain p hp, ?_⟩
  intro file hread
  simp only [mutualImports, List.mem_cons, List.not_mem_nil, or_false] at hp
  rcases hp with rfl | rfl | rfl <;> exact Option.some.inj hread ▸ fun _ _ => rfl

/-- In whatever order they are given, the two files that can be read are resources. -/
theorem kinds_fixed_by_set_mutual :
    (∀ p ∈ mutualImports, withMutualImports.Offers p) ∧
      (withMutualImports.gather ⟨[], [".robot"], true⟩ mutualImports).error = none ∧
      ∀ others : List Path, others.Perm mutualImports →
        (["a.robot", "b.robot", "c.robot"].map fun name =>
          ((withMutualImports.scanned ⟨[], [".robot"], true⟩ others).at? ⟨"/", ["proj", name]⟩).map
            (·.1)) = [some .resource, some .resource, none] := by
  have hanswer : (withMutualImports.gather ⟨[], [".robot"], true⟩ mutualImports).error = none := by
    decide +kernel
  obtain ⟨-, -, -, hperm⟩ := kinds_fixed_by_set withMutualImports ⟨[], [".robot"], true⟩ mutualImports
    rfl offers_mutualImports hanswer
  refine ⟨offers_mutualImports, hanswer, ?_⟩
  intro others hothers
  simp only [(hperm others hothers).2]
  decide +kernel

end Project

end SuiteLint
