import Mathlib.Data.List.Infix
import Mathlib.Data.List.Nodup
import SuiteLint.Project.Gather
import SuiteLint.Proofs.Lookup
import SuiteLint.Proofs.OutputFile

/-!
# The files that are gathered

A file is told by the way that leads down to it from a given path. The walk through a tree follows these
ways: what is wanted below an entry is wanted below its directory, with the name of the entry in front of
the way.
-/

namespace SuiteLint

namespace Path

/-- What lies at the end of a way downward from a path. -/
def below (p : Path) (way : List String) : Path := { p with parts := p.parts ++ way }

@[simp] theorem below_nil (p : Path) : p.below [] = p := by
  rw [below, List.append_nil]

theorem below_below (p : Path) (way more : List String) :
    (p.below way).below more = p.below (way ++ more) := by
  simp only [below, List.append_assoc]

theorem below_injective (p : Path) : Function.Injective p.below := by
  intro way other h
  rw [below, below, mk.injEq] at h
  exact List.append_cancel_left h.2

theorem hasType_iff (p : Path) (types : List String) :
    p.hasType types = true ↔ p.suffix ≠ "" ∧ String.ofList (Text.lower p.suffix.toList) ∈ types := by
  rw [hasType, Bool.and_eq_true, Bool.not_eq_true', Bool.eq_false_iff, ne_eq, String.isEmpty_iff,
    List.contains_iff_mem]

end Path

theorem Project.absolute_below (project : Project) (p : Path) (way : List String) :
    project.absolute (p.below way) = (project.absolute p).below way := by
  have hroot : (p.below way).isAbsolute = p.isAbsolute := rfl
  rw [absolute, absolute, Path.join, Path.join, hroot]
  by_cases hp : p.isAbsolute = true
  · rw [if_pos hp, if_pos hp]
  · rw [if_neg hp, if_neg hp, Path.below, Path.below, Path.mk.injEq]
    exact ⟨rfl, (List.append_assoc _ _ _).symm⟩

namespace Tree

mutual

def hasDistinctNames : Tree → Bool
  | file _ => true
  | directory es => decide (es.map (·.1)).Nodup && entriesHaveDistinctNames es

def entriesHaveDistinctNames : List (String × Tree) → Bool
  | [] => true
  | (_, t) :: es => t.hasDistinctNames && entriesHaveDistinctNames es

end

theorem hasDistinctNames_of_mem {es : List (String × Tree)} {name : String} {t : Tree}
    (h : (directory es).hasDistinctNames = true) (hmem : (name, t) ∈ es) : t.hasDistinctNames = true := by
  rw [hasDistinctNames, Bool.and_eq_true] at h
  obtain ⟨-, h⟩ := h
  induction es with
  | nil => cases hmem
  | cons entry es ih =>
    rw [entriesHaveDistinctNames, Bool.and_eq_true] at h
    rcases List.mem_cons.mp hmem with rfl | hrest
    · exact h.1
    · exact ih hrest h.2

/-- What passes from a directory to its entries holds of all that a path leads to. -/
theorem of_find? {holds : Tree → Bool}
    (hentry : ∀ es name t, holds (directory es) = true → (name, t) ∈ es → holds t = true)
    {t u : Tree} {p : Path} (h : holds t = true) (hfind : t.find? p = some u) : holds u = true := by
  obtain ⟨place, hat⟩ : ∃ place, t.at? place = some u := by
    rw [find?] at hfind
    split at hfind
    · exact ⟨_, hfind⟩
    · cases hfind
  clear hfind
  induction place generalizing t with
  | nil => exact Option.some.inj hat ▸ h
  | cons name names ih =>
    obtain ⟨es, child, rfl, hchild, hrest⟩ := exists_entries_of_at?_cons hat
    exact ih (hentry es name child h (Lookup.mem_of_eq_some hchild)) hrest

end Tree

/-! ## Which files are wanted -/

namespace Wanted

def passesOver (w : Wanted) (p : Path) : Bool := w.ignored.any fun pattern => p.fits? pattern = some true

def HasPatterns (w : Wanted) : Prop := ∀ pattern ∈ w.ignored, (Path.ofString pattern).components ≠ []

instance (w : Wanted) : Decidable w.HasPatterns := inferInstanceAs (Decidable (∀ _ ∈ _, _))

/-- A way from a path, at which a tree lies, to a file that is wanted. -/
structure Wants (w : Wanted) (p : Path) (t : Tree) (way : List String) : Prop where
  isFile : ∃ f, t.at? way = some (.file f)
  suffix : (p.below way).suffix ≠ ""
  type : String.ofList (Text.lower (p.below way).suffix.toList) ∈ w.types
  /-- Neither the path nor anything on the way is passed over. -/
  kept : ∀ place, place <+: way → w.passesOver (p.below place) = false
  /-- The file lies in the directory itself if others are not entered. -/
  near : w.recursive = false → t.isDirectory = true → way.length = 1

variable {w : Wanted} {p : Path}

theorem fitsAny?_eq (h : w.HasPatterns) (p : Path) : p.fitsAny? w.ignored = some (w.passesOver p) := by
  unfold passesOver
  unfold HasPatterns at h
  generalize w.ignored = ignored at h ⊢
  induction ignored with
  | nil => rfl
  | cons pattern patterns ih =>
    rw [List.forall_mem_cons] at h
    obtain ⟨fits, hfits⟩ : ∃ fits, p.fits? pattern = some fits := by
      have hfull : ¬ (Path.ofString pattern).components.isEmpty = true := mt List.isEmpty_iff.mp h.1
      simp only [Path.fits?, if_neg hfull, ← apply_ite some]
      exact ⟨_, rfl⟩
    unfold Path.fitsAny?
    simp only [List.any_cons, hfits]
    cases fits with
    | true => rfl
    | false => exact ih h.2

theorem wants_file_iff {f : SuiteFile} {way : List String} :
    w.Wants p (.file f) way ↔ w.passesOver p = false ∧ p.hasType w.types = true ∧ way = [] := by
  constructor
  · intro h
    obtain ⟨g, hg⟩ := h.isFile
    obtain rfl : way = [] := by
      cases way with
      | nil => rfl
      | cons name names => simp [Tree.at?_cons, Tree.entries] at hg
    have hkept := h.kept [] List.nil_prefix
    have hsuffix := h.suffix
    have htype := h.type
    rw [Path.below_nil] at hkept hsuffix htype
    exact ⟨hkept, (p.hasType_iff w.types).mpr ⟨hsuffix, htype⟩, rfl⟩
  · rintro ⟨hkept, htype, rfl⟩
    obtain ⟨hsuffix, hmem⟩ := (p.hasType_iff w.types).mp htype
    refine ⟨⟨f, rfl⟩, ?_, ?_, ?_, fun _ h => by cases h⟩
    · rwa [Path.below_nil]
    · rwa [Path.below_nil]
    · intro place hplace
      rwa [List.prefix_nil.mp hplace, Path.below_nil]

def WantsEntry (w : Wanted) (p : Path) (entry : String × Tree) (way : List String) : Prop :=
  ∃ rest, way = entry.1 :: rest ∧ (w.recursive = false → entry.2.isDirectory = false) ∧
    w.Wants (p.below [entry.1]) entry.2 rest

theorem wants_directory_iff {es : List (String × Tree)} (hnames : (es.map (·.1)).Nodup)
    {way : List String} :
    w.Wants p (.directory es) way ↔
      w.passesOver p = false ∧ ∃ entry ∈ es, w.WantsEntry p entry way := by
  constructor
  · intro h
    refine ⟨by simpa [Path.below_nil] using h.kept [] List.nil_prefix, ?_⟩
    obtain ⟨f, hf⟩ := h.isFile
    cases way with
    | nil => simp [Tree.at?] at hf
    | cons name rest =>
      obtain ⟨_, child, heq, hchild, hrest⟩ := Tree.exists_entries_of_at?_cons hf
      obtain rfl := Tree.directory.inj heq
      have hshort (hflat : w.recursive = false) : rest = [] := by
        simpa using h.near hflat rfl
      refine ⟨(name, child), Lookup.mem_of_eq_some hchild, rest, rfl, fun hflat => ?_, ?_⟩
      · rw [hshort hflat] at hrest
        rw [Option.some.inj hrest]
        rfl
      · refine ⟨⟨f, hrest⟩, ?_, ?_, fun place hplace => ?_, fun hflat hdir => ?_⟩
        · rw [Path.below_below]
          exact h.suffix
        · rw [Path.below_below]
          exact h.type
        · rw [Path.below_below]
          exact h.kept _ (List.prefix_append_right_inj [name] |>.mpr hplace)
        · rw [hshort hflat] at hrest
          rw [Option.some.inj hrest] at hdir
          cases hdir
  · rintro ⟨hkept, ⟨name, child⟩, hmem, rest, rfl, hflat, h⟩
    have hlookup := (Lookup.eq_some_iff_mem hnames).mpr hmem
    obtain ⟨f, hf⟩ := h.isFile
    refine ⟨⟨f, ?_⟩, ?_, ?_, fun place hplace => ?_, fun hnear _ => ?_⟩
    · rw [Tree.at?_cons, Tree.entries, hlookup, Option.bind_some, hf]
    · have hsuffix := h.suffix
      rwa [Path.below_below] at hsuffix
    · have htype := h.type
      rwa [Path.below_below] at htype
    · cases place with
      | nil => rwa [Path.below_nil]
      | cons first place =>
        obtain ⟨rfl, hrest⟩ := List.cons_prefix_cons.mp hplace
        have hclear := h.kept place hrest
        rwa [Path.below_below] at hclear
    · cases rest with
      | nil => rfl
      | cons next rest =>
        obtain ⟨_, _, heq, -⟩ := Tree.exists_entries_of_at?_cons hf
        have hdir := hflat hnear
        rw [heq] at hdir
        cases hdir

end Wanted

/-! ## What is gathered -/

namespace Gathered

/-- Without an error, the answer is made of the ends of the ways that satisfy the condition, each once. -/
def Lists (g : Gathered) (p : Path) (good : List String → Prop) : Prop :=
  ∃ ways : List (List String), g = ⟨ways.map p.below, .none⟩ ∧ ways.Nodup ∧ ∀ way, way ∈ ways ↔ good way

variable {g more : Gathered} {p : Path} {good other : List String → Prop}

theorem Lists.congr (h : g.Lists p good) (hiff : ∀ way, other way ↔ good way) : g.Lists p other := by
  obtain ⟨ways, heq, hnodup, hmem⟩ := h
  exact ⟨ways, heq, hnodup, fun way => (hmem way).trans (hiff way).symm⟩

theorem lists_none : none.Lists p fun _ => False :=
  ⟨[], rfl, List.nodup_nil, fun _ => by simp⟩

theorem Lists.append (h : g.Lists p good) (hmore : more.Lists p other)
    (hapart : ∀ way, good way → ¬ other way) :
    (g.append more).Lists p fun way => good way ∨ other way := by
  obtain ⟨ways, rfl, hnodup, hmem⟩ := h
  obtain ⟨others, rfl, hnodup', hmem'⟩ := hmore
  refine ⟨ways ++ others, by rw [List.map_append]; rfl, ?_, ?_⟩
  · refine List.Nodup.append hnodup hnodup' fun way hway hother => ?_
    exact hapart way ((hmem way).mp hway) ((hmem' way).mp hother)
  · intro way
    rw [List.mem_append, hmem, hmem']

theorem Lists.up {name : String} (h : g.Lists (p.below [name]) good) :
    g.Lists p fun way => ∃ rest, way = name :: rest ∧ good rest := by
  obtain ⟨ways, rfl, hnodup, hmem⟩ := h
  refine ⟨ways.map (name :: ·), ?_, hnodup.map fun _ _ heq => (List.cons.inj heq).2, fun way => ?_⟩
  · rw [List.map_map]
    congr 2
    funext way
    exact p.below_below [name] way
  · simp only [List.mem_map, hmem]
    constructor
    · rintro ⟨rest, hrest, rfl⟩
      exact ⟨rest, rfl, hrest⟩
    · rintro ⟨rest, rfl, hrest⟩
      exact ⟨rest, hrest, rfl⟩

end Gathered

namespace Tree

open Gathered

variable {w : Wanted}

private theorem lists_unlessIgnored (hpatterns : w.HasPatterns) {p : Path} {g : Gathered}
    {good : List String → Prop} (h : g.Lists p good) :
    (unlessIgnored w p g).Lists p fun way => w.passesOver p = false ∧ good way := by
  rw [unlessIgnored, Wanted.fitsAny?_eq hpatterns]
  cases w.passesOver p with
  | true => exact lists_none.congr fun way => by simp
  | false => exact h.congr fun way => by simp

mutual

theorem lists_gather (hpatterns : w.HasPatterns) (p : Path) : ∀ t : Tree, t.hasDistinctNames = true →
    (gather w p t).Lists p (w.Wants p t)
  | file f, _ => by
    have hfile : Lists ⟨if p.hasType w.types then [p] else [], .none⟩ p
        fun way => p.hasType w.types = true ∧ way = [] := by
      cases p.hasType w.types with
      | true => exact ⟨[[]], by simp [Path.below_nil], List.nodup_singleton _, fun way => by simp⟩
      | false => exact lists_none.congr fun way => by simp
    rw [gather]
    exact (lists_unlessIgnored hpatterns hfile).congr fun way => Wanted.wants_file_iff
  | directory es, h => by
    rw [hasDistinctNames, Bool.and_eq_true, decide_eq_true_eq] at h
    rw [gather]
    exact (lists_unlessIgnored hpatterns (lists_gatherEntries hpatterns p es h.1 h.2)).congr
      fun way => Wanted.wants_directory_iff h.1

theorem lists_gatherEntries (hpatterns : w.HasPatterns) (p : Path) : ∀ es : List (String × Tree),
    (es.map (·.1)).Nodup → entriesHaveDistinctNames es = true →
      (gatherEntries w p es).Lists p fun way => ∃ entry ∈ es, w.WantsEntry p entry way
  | [], _, _ => lists_none.congr fun way => by simp
  | (name, t) :: es, hnames, h => by
    rw [entriesHaveDistinctNames, Bool.and_eq_true] at h
    rw [List.map_cons, List.nodup_cons] at hnames
    have hrest := lists_gatherEntries hpatterns p es hnames.2 h.2
    rw [gatherEntries]
    split
    · next hskip =>
      rw [Bool.and_eq_true, Bool.not_eq_true'] at hskip
      refine hrest.congr fun way => ?_
      rw [List.exists_mem_cons_iff]
      refine or_iff_right ?_
      rintro ⟨rest, -, hflat, -⟩
      exact Bool.noConfusion ((hflat hskip.2).symm.trans hskip.1)
    · next hentered =>
      have hhere := (lists_gather hpatterns (p.below [name]) t h.1).up
      refine (hhere.append hrest ?_).congr fun way => ?_
      · rintro _ ⟨rest, rfl, -⟩ ⟨entry, hentry, _, heq, -⟩
        have hname : name = entry.1 := (List.cons.inj heq).1
        exact hnames.1 (List.mem_map.mpr ⟨entry, hentry, hname.symm⟩)
      · rw [List.exists_mem_cons_iff]
        have hflat (hone : w.recursive = false) : t.isDirectory = false := by
          simpa [hone] using hentered
        refine or_congr_left ⟨?_, ?_⟩
        · rintro ⟨rest, rfl, -, hwants⟩
          exact ⟨rest, rfl, hwants⟩
        · rintro ⟨rest, rfl, hwants⟩
          exact ⟨rest, rfl, hflat, hwants⟩

end

end Tree

namespace Project

variable (project : Project) {w : Wanted}

private theorem lists_gatherPath (hnames : project.tree.hasDistinctNames = true) (hpatterns : w.HasPatterns)
    {p : Path} {t : Tree} (h : project.find? p = some t) :
    (project.gatherPath w p).Lists p (w.Wants p t) := by
  rw [gatherPath, h]
  exact Tree.lists_gather hpatterns p t (Tree.of_find? (fun _ _ _ => Tree.hasDistinctNames_of_mem) hnames h)

/-- Where nothing goes wrong at paths that exist, the answers for the given paths stand one behind the
other, up to the first path that does not exist. -/
theorem gather_eq (h : ∀ p, project.holds p = true → (project.gatherPath w p).error = none)
    (given : List Path) :
    project.gather w given =
      ⟨(given.takeWhile project.holds).flatMap fun p => (project.gatherPath w p).paths,
        (given.find? fun p => !project.holds p).map fun p => .missingFile p.toString⟩ := by
  induction given with
  | nil => rfl
  | cons p given ih =>
    rw [gather, ih]
    cases hp : project.holds p with
    | false =>
      have hnone : project.gatherPath w p = ⟨[], some (.missingFile p.toString)⟩ := by
        rw [holds, Option.isSome_eq_false_iff, Option.isNone_iff_eq_none] at hp
        rw [gatherPath, hp]
      rw [hnone, List.takeWhile_cons, List.find?_cons, hp]
      rfl
    | true =>
      rw [Gathered.append, h p hp, List.takeWhile_cons, List.find?_cons, hp]
      rfl

/-- In a tree of directories without repeated names, with no empty `--ignore` pattern: for the given paths in
turn, up to the first one that does not exist, the wanted files at or below the path are gathered, each once.
There is an error just if one of the given paths does not exist, and it names the first of them. -/
theorem wanted_files_gathered (hnames : project.tree.hasDistinctNames = true)
    (hpatterns : w.HasPatterns) (given : List Path) :
    ∃ found : Path → List Path,
      (∀ p t, project.find? p = some t → (found p).Nodup ∧
        ∀ q, q ∈ found p ↔ ∃ way, w.Wants p t way ∧ q = project.absolute (p.below way)) ∧
      (project.gather w given).paths.map project.absolute =
        (given.takeWhile project.holds).flatMap found ∧
      (project.gather w given).error =
        (given.find? fun p => !project.holds p).map fun p => .missingFile p.toString := by
  have hsound : ∀ p, project.holds p = true → (project.gatherPath w p).error = none := by
    intro p hp
    obtain ⟨t, ht⟩ := Option.isSome_iff_exists.mp hp
    obtain ⟨ways, hways, -⟩ := project.lists_gatherPath hnames hpatterns ht
    rw [hways]
  refine ⟨fun p => (project.gatherPath w p).paths.map project.absolute, fun p t ht => ?_, ?_, ?_⟩
  · obtain ⟨ways, hways, hnodup, hmem⟩ := project.lists_gatherPath hnames hpatterns ht
    have hinjective : Function.Injective fun way => project.absolute (p.below way) := by
      intro way other heq
      dsimp only at heq
      rw [absolute_below, absolute_below] at heq
      exact Path.below_injective _ heq
    dsimp only
    rw [hways, List.map_map]
    refine ⟨hnodup.map hinjective, fun q => ?_⟩
    rw [List.mem_map]
    constructor
    · rintro ⟨way, hway, rfl⟩
      exact ⟨way, (hmem way).mp hway, rfl⟩
    · rintro ⟨way, hway, rfl⟩
      exact ⟨way, (hmem way).mpr hway, rfl⟩
  · rw [project.gather_eq hsound, List.map_flatMap]
  · rw [project.gather_eq hsound]

/-- A project with a file to build it, and with suites in and below its directory. -/
def nestedSuites : Project where
  tree := .directory [("proj", .directory [("Makefile", .file (.plain [])), ("a.robot", .file (.plain [])),
    ("sub", .directory [("b.ROBOT", .file (.plain [])), ("old",
      .directory [("c.robot", .file (.plain []))])])])]
  cwd := ⟨"/", ["proj"]⟩
  modules := []
  written := []
  readToml _ := none

def currentSuites : Wanted := ⟨["ol*"], [".robot"], true⟩

theorem wanted_files_gathered_nestedSuites :
    nestedSuites.tree.hasDistinctNames = true ∧ currentSuites.HasPatterns ∧
      ∃ found : Path → List Path,
        (found ⟨"", []⟩).Nodup ∧ ⟨"/", ["proj", "sub", "b.ROBOT"]⟩ ∈ found ⟨"", []⟩ ∧
        ⟨"/", ["proj", "sub", "old", "c.robot"]⟩ ∉ found ⟨"", []⟩ ∧
        (nestedSuites.gather currentSuites ([".", "sub", "gone", "a.robot"].map .ofString)).paths.map
          nestedSuites.absolute = found ⟨"", []⟩ ++ found ⟨"", ["sub"]⟩ ∧
        (nestedSuites.gather currentSuites ([".", "sub", "gone", "a.robot"].map .ofString)).error =
          some (.missingFile "gone") := by
  have hnames : nestedSuites.tree.hasDistinctNames = true := by decide +kernel
  have hpatterns : currentSuites.HasPatterns := by decide +kernel
  obtain ⟨found, hfound, hpaths, herror⟩ := nestedSuites.wanted_files_gathered hnames hpatterns
    ([".", "sub", "gone", "a.robot"].map .ofString)
  have hreached : ([".", "sub", "gone", "a.robot"].map Path.ofString).takeWhile nestedSuites.holds =
      [⟨"", []⟩, ⟨"", ["sub"]⟩] := by decide +kernel
  have hmissing : ([".", "sub", "gone", "a.robot"].map Path.ofString).find?
      (fun p => !nestedSuites.holds p) = some ⟨"", ["gone"]⟩ := by decide +kernel
  obtain ⟨hnodup, hmem⟩ := hfound ⟨"", []⟩ _ rfl
  refine ⟨hnames, hpatterns, found, hnodup, ?_, ?_, ?_, ?_⟩
  · refine (hmem _).mpr ⟨["sub", "b.ROBOT"], ⟨⟨_, rfl⟩, by decide +kernel, by decide +kernel, ?_, ?_⟩, rfl⟩
    · have hclear : ∀ place ∈ ["sub", "b.ROBOT"].inits,
          currentSuites.passesOver (Path.below ⟨"", []⟩ place) = false := by decide +kernel
      exact fun place hplace => hclear place ((List.mem_inits _ _).mpr hplace)
    · intro hflat
      cases hflat
  · intro hold
    obtain ⟨way, hwants, heq⟩ := (hmem _).mp hold
    rw [absolute_below] at heq
    obtain rfl : ["sub", "old", "c.robot"] = way := Path.below_injective ⟨"/", ["proj"]⟩ heq
    have hkept := hwants.kept ["sub", "old"] ⟨["c.robot"], rfl⟩
    exact absurd hkept (by decide +kernel)
  · rw [hpaths, hreached]
    simp
  · rw [herror, hmissing]
    rfl

/-- The ending of a name that has none is not looked for among the wanted ones, not even if the empty one
is among them; and with an empty pattern nothing is gathered. -/
theorem file_without_suffix_passed_over :
    (nestedSuites.isFile ⟨"", ["Makefile"]⟩ = true ∧
      String.ofList (Text.lower (Path.mk "" ["Makefile"]).suffix.toList) ∈ [""] ∧
      nestedSuites.gather ⟨[], [""], true⟩ [⟨"", ["Makefile"]⟩] = ⟨[], none⟩) ∧
    nestedSuites.isFile ⟨"", ["a.robot"]⟩ = true ∧
      (Path.mk "" ["a.robot"]).suffix = ".robot" ∧
      nestedSuites.gather ⟨["."], [".robot"], true⟩ [⟨"", ["a.robot"]⟩] = ⟨[], some .emptyPattern⟩ := by
  refine ⟨⟨rfl, ?_, rfl⟩, rfl, ?_, rfl⟩
  · decide +kernel
  · decide +kernel

end Project

end SuiteLint
