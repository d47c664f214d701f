import SuiteLint.Proofs.FileGathering
import SuiteLint.Proofs.FileKinds
import SuiteLint.Proofs.ReportTotals
import SuiteLint.Proofs.WholeFile

/-!
# The spellings of a file

A run keeps files by their paths, made absolute as they are spelled. What is gathered is spelled as a given
path with a way downward behind it. So a file is kept twice exactly if two given paths lead to it of which
neither is spelled as the other one with a way behind it.
-/

namespace SuiteLint

private theorem Path.normalized_below (p : Path) {way : List String} (h : ".." ∉ way) :
    (p.below way).normalized = p.normalized.below way := by
  have hparts : resolve p.isAbsolute [] (p.parts ++ way) = resolve p.isAbsolute [] p.parts ++ way := by
    rw [resolve_eq_foldl, List.foldl_append, ← resolve_eq_foldl, resolve_of_plain h, resolve_eq_foldl]
  exact congrArg (mk p.root) hparts

/-- Of two ways to one place, the shorter one is an end of the other. -/
theorem Path.exists_of_below_eq {p q : Path} {way way' : List String} (h : p.below way = q.below way') :
    (∃ more, way = more ++ way' ∧ q = p.below more) ∨ ∃ more, way' = more ++ way ∧ p = q.below more := by
  obtain ⟨root, parts⟩ := p
  obtain ⟨root', parts'⟩ := q
  obtain ⟨rfl, hparts⟩ : root = root' ∧ parts ++ way = parts' ++ way' := mk.inj h
  rcases List.append_eq_append_iff.mp hparts with ⟨more, rfl, rfl⟩ | ⟨more, rfl, rfl⟩
  · exact Or.inl ⟨more, rfl, rfl⟩
  · exact Or.inr ⟨more, rfl, rfl⟩

/-! ## Paths that are gathered -/

namespace Tree

mutual

def hasPlainNames : Tree → Bool
  | file _ => true
  | directory es => entriesHavePlainNames es

def entriesHavePlainNames : List (String × Tree) → Bool
  | [] => true
  | (name, t) :: es => decide (name ≠ "..") && t.hasPlainNames && entriesHavePlainNames es

end

theorem hasPlainNames_of_mem {es : List (String × Tree)} {name : String} {t : Tree}
    (h : (directory es).hasPlainNames = true) (hmem : (name, t) ∈ es) : t.hasPlainNames = true := by
  rw [hasPlainNames] at h
  induction es with
  | nil => cases hmem
  | cons entry es ih =>
    rw [entriesHavePlainNames, Bool.and_eq_true, Bool.and_eq_true] at h
    rcases List.mem_cons.mp hmem with rfl | hrest
    · exact h.1.2
    · exact ih h.2 hrest

end Tree

/-- All paths of an answer lead from a path downward, with no part that leads upward. -/
def Gathered.LiesBelow (g : Gathered) (p : Path) : Prop := ∀ q ∈ g.paths, ∃ way, ".." ∉ way ∧ q = p.below way

namespace Gathered.LiesBelow

variable {g more : Gathered} {p : Path}

theorem append (h : g.LiesBelow p) (hmore : more.LiesBelow p) : (g.append more).LiesBelow p := by
  unfold Gathered.append
  split
  · exact h
  · intro q hq
    rcases List.mem_append.mp hq with hq | hq
    · exact h q hq
    · exact hmore q hq

theorem up {name : String} (h : g.LiesBelow (p.below [name])) (hname : name ≠ "..") : g.LiesBelow p := by
  intro q hq
  obtain ⟨way, hway, rfl⟩ := h q hq
  refine ⟨name :: way, ?_, p.below_below [name] way⟩
  rw [List.mem_cons, not_or]
  exact ⟨Ne.symm hname, hway⟩

private theorem unlessIgnored {w : Wanted} (h : g.LiesBelow p) : (Tree.unlessIgnored w p g).LiesBelow p := by
  unfold Tree.unlessIgnored
  split
  · exact List.forall_mem_nil _
  · exact List.forall_mem_nil _
  · exact h

end Gathered.LiesBelow

namespace Tree

variable (w : Wanted)

mutual

theorem liesBelow_gather (p : Path) : ∀ t : Tree, t.hasPlainNames = true → (gather w p t).LiesBelow p
  | file f, _ => by
    rw [gather]
    apply Gathered.LiesBelow.unlessIgnored
    intro q hq
    refine ⟨[], List.not_mem_nil, ?_⟩
    dsimp only at hq
    split at hq
    · rw [List.mem_singleton.mp hq, Path.below_nil]
    · cases hq
  | directory es, h => by
    rw [gather]
    exact (liesBelow_gatherEntries p es h).unlessIgnored

theorem liesBelow_gatherEntries (p : Path) : ∀ es : List (String × Tree),
    entriesHavePlainNames es = true → (gatherEntries w p es).LiesBelow p
  | [], _ => List.forall_mem_nil _
  | (name, t) :: es, h => by
    rw [entriesHavePlainNames, Bool.and_eq_true, Bool.and_eq_true, decide_eq_true_eq] at h
    have hrest := liesBelow_gatherEntries p es h.2
    rw [gatherEntries]
    split
    · exact hrest
    · exact ((liesBelow_gather (p.below [name]) t h.1.2).up h.1.1).append hrest

end

end Tree

namespace Project

variable {project : Project} {w : Wanted} {given : List Path}

theorem liesBelow_gatherPath (hnames : project.tree.hasPlainNames = true) (p : Path) :
    (project.gatherPath w p).LiesBelow p := by
  unfold gatherPath
  split
  · exact List.forall_mem_nil _
  · next t hfind =>
    exact Tree.liesBelow_gather w p t
      (Tree.of_find? (fun _ _ _ => Tree.hasPlainNames_of_mem) hnames hfind)

theorem paths_gather_eq (h : (project.gather w given).error = none) :
    (project.gather w given).paths = given.flatMap fun p => (project.gatherPath w p).paths := by
  induction given with
  | nil => rfl
  | cons p given ih =>
    rw [gather, Gathered.append] at h ⊢
    split at h
    · next e herror =>
      rw [herror] at h
      cases h
    · rw [List.flatMap_cons, ih h]

end Project

/-! ## Files that are kept -/

theorem Scan.mem_paths_ofPaths {project : Project} {paths : List Path} {p : Path} :
    p ∈ (ofPaths project paths).files.map (·.path) ↔
      p ∈ paths ∧ (project.read? p (.ofPath p)).isSome = true := by
  have hholds : Holds project (paths.foldl (add project) none).files paths := holds_foldl_add holds_none
  rw [ofPaths, map_path_settle, List.mem_map]
  constructor
  · rintro ⟨f, hf, rfl⟩
    obtain ⟨hmem, hfirst⟩ := (hholds.mem_iff f).mp hf
    obtain ⟨d, hd, -⟩ := Option.map_eq_some_iff.mp hfirst
    exact ⟨hmem, Option.isSome_of_mem hd⟩
  · rintro ⟨hmem, hsome⟩
    obtain ⟨d, hd⟩ := Option.isSome_iff_exists.mp hsome
    exact ⟨⟨p, .ofPath p, d⟩, (hholds.mem_iff _).mpr ⟨hmem, by rw [first?, hd]; rfl⟩, rfl⟩

namespace Project

/-- A file that can be read is gathered from a given path, at the end of a way. -/
def Reaches (project : Project) (w : Wanted) (p : Path) (way : List String) : Prop :=
  p.below way ∈ (project.gatherPath w p).paths ∧
    (project.read? ((project.absolute p).below way) (.ofPath ((project.absolute p).below way))).isSome = true

/-- Where two given paths lead to one file, the one that lies at or below the other is spelled as the other
with a way behind it. -/
def SpellsAlike (project : Project) (w : Wanted) (given : List Path) : Prop :=
  ∀ p ∈ given, ∀ q ∈ given, ∀ more way : List String,
    project.Reaches w p (more ++ way) → project.Reaches w q way →
      (project.absolute q).normalized = (project.absolute p).normalized.below more →
        project.absolute q = (project.absolute p).below more

variable {project : Project} {w : Wanted} {given : List Path}

theorem mem_paths_scanned (hnames : project.tree.hasPlainNames = true)
    (h : (project.gather w given).error = none) {a : Path} :
    a ∈ (project.scanned w given).files.map (·.path) ↔
      ∃ p ∈ given, ∃ way, ".." ∉ way ∧ project.Reaches w p way ∧ a = (project.absolute p).below way := by
  rw [scanned, Scan.mem_paths_ofPaths, paths_gather_eq h, List.mem_map]
  constructor
  · rintro ⟨⟨b, hb, rfl⟩, hread⟩
    obtain ⟨p, hp, hmem⟩ := List.mem_flatMap.mp hb
    obtain ⟨way, hway, rfl⟩ := liesBelow_gatherPath hnames p b hmem
    rw [absolute_below] at hread ⊢
    exact ⟨p, hp, way, hway, ⟨hmem, hread⟩, rfl⟩
  · rintro ⟨p, hp, way, -, ⟨hmem, hread⟩, rfl⟩
    exact ⟨⟨p.below way, List.mem_flatMap.mpr ⟨p, hp, hmem⟩, project.absolute_below p way⟩, hread⟩

private theorem plain_of_reaches (hnames : project.tree.hasPlainNames = true) {p : Path} {way : List String}
    (h : project.Reaches w p way) : ".." ∉ way := by
  obtain ⟨way', hplain, heq⟩ := liesBelow_gatherPath hnames p _ h.1
  rwa [p.below_injective heq]

/-- The paths of the kept files stay different when they are resolved just if the given paths are spelled
alike. -/
theorem nodup_normalized_iff (hnames : project.tree.hasPlainNames = true)
    (h : (project.gather w given).error = none) :
    ((project.scanned w given).files.map (·.path.normalized)).Nodup ↔ project.SpellsAlike w given := by
  have hpaths : ((project.scanned w given).files.map (·.path)).Nodup := Scan.nodup_ofPaths
  have hmap : (project.scanned w given).files.map (·.path.normalized) =
      ((project.scanned w given).files.map (·.path)).map Path.normalized := by
    rw [List.map_map]
    rfl
  rw [hmap, List.nodup_map_iff_inj_on hpaths]
  constructor
  · intro hinj p hp q hq more way hfirst hsecond hsame
    have hlong := plain_of_reaches hnames hfirst
    have hshort := plain_of_reaches hnames hsecond
    have hspelled := hinj _ ((mem_paths_scanned hnames h).mpr ⟨p, hp, _, hlong, hfirst, rfl⟩) _
      ((mem_paths_scanned hnames h).mpr ⟨q, hq, _, hshort, hsecond, rfl⟩)
      (by rw [Path.normalized_below _ hlong, Path.normalized_below _ hshort, hsame, Path.below_below])
    rw [← Path.below_below, Path.mk.injEq] at hspelled
    obtain ⟨hroot, hparts⟩ := hspelled
    exact (congrArg₂ Path.mk hroot (List.append_cancel_right hparts)).symm
  · intro halike a ha b hb hsame
    obtain ⟨p, hp, way, hway, hfirst, rfl⟩ := (mem_paths_scanned hnames h).mp ha
    obtain ⟨q, hq, way', hway', hsecond, rfl⟩ := (mem_paths_scanned hnames h).mp hb
    rw [Path.normalized_below _ hway, Path.normalized_below _ hway'] at hsame
    obtain ⟨more, rfl, heq⟩ | ⟨more, rfl, heq⟩ := Path.exists_of_below_eq hsame
    · rw [halike p hp q hq more way' hfirst hsecond heq, Path.below_below]
    · rw [halike q hq p hp more way hsecond hfirst heq, Path.below_below]

private theorem spellsAlike_of_plain (h : ∀ p ∈ given, ".." ∉ (project.absolute p).parts) :
    project.SpellsAlike w given := by
  intro p hp q hq more way _ _ hsame
  rwa [Path.normalized_of_plain (h q hq), Path.normalized_of_plain (h p hp)] at hsame

end Project

/-! ## One check of each kept file -/

/-- An issue of a check names the file that is checked. -/
theorem Linter.source_of_mem_check {l : Linter} {s : Subject} {issues : List Issue}
    (h : (l.check s).1 = .ok issues) : ∀ i ∈ issues, i.source = s.fileName := by
  intro i hi
  obtain ⟨c, -, f, hissue⟩ := exists_issueOf_of_mem_check h hi
  obtain ⟨rule, desc, -, -, rfl⟩ := CheckerEntry.exists_rule_of_issueOf hissue
  rfl

private theorem Linter.registry_check (l : Linter) (s : Subject) :
    ∃ memory, (l.check s).2 = { l with memory := memory } := by
  rw [check_eq_checkThrough]
  split
  · exact ⟨l.memory, rfl⟩
  · exact ⟨_, rfl⟩

/-- The lines of a run go to another file than the one at a path, or to none. -/
def Session.WritesApart (s : Session) (output : Option String) (p : Path) : Prop :=
  ∀ name ∈ output, s.project.isFile (.ofString name) = true ∧
    s.project.placeOf? p ≠ s.project.placeOf? (.ofString name)

theorem Scanned.subject_writeAll {s : Session} {output : Option String} {f : Scanned}
    (h : s.WritesApart output f.path) (lines : List String) :
    f.subject (s.writeAll output lines).project = f.subject s.project := by
  cases output with
  | none => rw [s.project_writeAll_none]
  | some name =>
    obtain ⟨hfile, hne⟩ := h name rfl
    obtain ⟨g, hg⟩ := Option.isSome_iff_exists.mp hfile
    rw [subject, subject, Session.file?_writeAll_of_ne hg hne]

namespace Run

/-- The issues of one check of a file, sorted, by a linter that may have checked others before. The file is
checked with the bytes that it has in the project; only if it is the output file, lines of the run may be
behind them. The issues name the file by its path. -/
def IsCheckOf (o : Options) (s : Session) (l : Linter) (f : Scanned) (issues : List Issue) : Prop :=
  ∃ (memory : Memory) (lines : List String) (found : List Issue),
    (s.WritesApart o.output f.path → lines = []) ∧
      ({ l with memory := memory }.check (f.subject (s.writeAll o.output lines).project)).1 = .ok found ∧
      issues = Issue.sort found ∧ ∀ i ∈ issues, i.source = f.path.toString

variable {o : Options} {s after : Session} {r told : Reports}

theorem isCheckOf_sort {l : Linter} {f : Scanned} {lines : List String} {found : List Issue}
    (h : (l.check (f.subject (s.writeAll o.output lines).project)).1 = .ok found) :
    IsCheckOf o s l f (Issue.sort found) := by
  have hsource : ∀ i ∈ Issue.sort found, i.source = f.path.toString := fun i hi =>
    Linter.source_of_mem_check h i ((Issue.sort_perm found).mem_iff.mp hi)
  by_cases hapart : s.WritesApart o.output f.path
  · rw [Scanned.subject_writeAll hapart] at h
    exact ⟨l.memory, [], found, fun _ => rfl, h, rfl, hsource⟩
  · exact ⟨l.memory, lines, found, fun h => absurd h hapart, h, rfl, hsource⟩

theorem exists_lines_of_tellAll {issues : List Issue} (h : tellAll o s r issues = (after, .ok told)) :
    told = issues.foldl Reports.add r ∧ ∃ lines, after = s.writeAll o.output lines := by
  induction issues generalizing s r with
  | nil =>
    obtain ⟨rfl, htold⟩ := Prod.mk.inj h
    exact ⟨(Except.ok.inj htold).symm, [], rfl⟩
  | cons i issues ih =>
    rw [tellAll] at h
    cases hrender : i.render o.format s.project.cwd with
    | error e => simp [tell, hrender] at h
    | ok line =>
      simp only [tell, hrender] at h
      obtain ⟨htold, lines, hafter⟩ := ih h
      exact ⟨htold, line :: lines, hafter⟩

/-- The issues that are told are those of one check of each file, in the order of the files. -/
theorem exists_results_of_checkAll {l : Linter} {files : List Scanned} {now : Session} (lines : List String)
    (h : checkAll o now l r files = (after, .ok told))
    (hnow : now.project = (s.writeAll o.output lines).project) :
    ∃ results : List (List Issue), List.Forall₂ (IsCheckOf o s l) files results ∧
      told.issues = r.issues ++ results.flatten := by
  induction files generalizing now l r lines with
  | nil =>
    obtain rfl : r = told := Except.ok.inj (Prod.mk.inj h).2
    exact ⟨[], .nil, by simp⟩
  | cons f files ih =>
    rw [checkAll] at h
    have hsame : (if o.verbose then now.say ("Scanning file: " ++ f.path.toString) else now).project =
        (s.writeAll o.output lines).project := by
      split <;> exact hnow
    generalize (if o.verbose then now.say ("Scanning file: " ++ f.path.toString) else now) = now' at h hsame
    obtain ⟨memory, hlinter⟩ := l.registry_check (f.subject now'.project)
    rcases hcheck : l.check (f.subject now'.project) with ⟨e | found, l'⟩
    · simp [hcheck] at h
    · rw [hcheck] at hlinter
      simp only [hcheck] at h
      rcases htell : tellAll o now' r (Issue.sort found) with ⟨now'', e | r'⟩
      · simp [htell] at h
      · simp only [htell] at h
        obtain ⟨rfl, more, rfl⟩ := exists_lines_of_tellAll htell
        have hnext : (now'.writeAll o.output more).project =
            (s.writeAll o.output (lines ++ more)).project := by
          rw [Session.project_writeAll_congr hsame, Session.writeAll, Session.writeAll, Session.writeAll,
            List.foldl_append]
        obtain ⟨results, hresults, htold⟩ := ih _ h hnext
        refine ⟨Issue.sort found :: results, .cons (isCheckOf_sort (hsame ▸ congrArg Prod.fst hcheck)) ?_, ?_⟩
        · dsimp only at hlinter
          rwa [hlinter] at hresults
        · rw [htold, Reports.foldl_add, List.flatten_cons, List.append_assoc]

end Run

namespace Options

/-- After all given paths were found, no two kept files have one resolved path exactly if the given paths are
spelled alike, and so always if none of them leads upward, however they overlap or repeat each other. In a run
every kept file is checked once, and the issues of these checks are told file by file. -/
theorem files_linted_once_iff (o : Options) (s : Session) (hnames : s.project.tree.hasPlainNames = true)
    (hfound : (s.project.gather o.wanted (o.paths.map .ofString)).error = none) :
    let files := (s.project.scanned o.wanted (o.paths.map .ofString)).files
    ((files.map (·.path.normalized)).Nodup ↔ s.project.SpellsAlike o.wanted (o.paths.map .ofString)) ∧
      ((∀ given ∈ o.paths, ".." ∉ (s.project.absolute (.ofString given)).parts) →
        (files.map (·.path.normalized)).Nodup) ∧
      ∀ (seconds : String) (setup : Setup) (after : Session) (told : Reports),
        Run.checks o seconds s setup = (after, .ok told) →
          ∃ results : List (List Issue), List.Forall₂ (Run.IsCheckOf o s setup.linter) files results ∧
            told.issues = setup.reports.issues ++ results.flatten := by
  intro files
  have hiff := Project.nodup_normalized_iff hnames hfound
  refine ⟨hiff, fun hplain => hiff.mpr (Project.spellsAlike_of_plain ?_), ?_⟩
  · intro p hp
    obtain ⟨given, hgiven, rfl⟩ := List.mem_map.mp hp
    exact hplain given hgiven
  · intro seconds setup after told h
    rw [Run.checks, hfound] at h
    dsimp only at h
    split at h
    · cases h
    · next s' r hcheck =>
      obtain ⟨results, hresults, htold⟩ := Run.exists_results_of_checkAll (s := s) [] hcheck rfl
      obtain rfl := Except.ok.inj (Prod.mk.inj h).2
      exact ⟨results, hresults, htold⟩

/-- A suite beside an empty directory. -/
def besideDirectory : Session where
  project :=
    ⟨.directory [("proj", .directory [("a.robot", .file ⟨[], fun _ => some ⟨none, []⟩⟩),
      ("sub", .directory [])])], ⟨"/", ["proj"]⟩, [], [], fun _ => none⟩
  printed := []

def forDocs : Setup :=
  ⟨⟨.plain, .ofCheckers [Checker.missingDocumentation.tuned .plain RuleKey.anyRule .start], .blank⟩,
    .ofNames []⟩

/-- The suite is reached three times from paths that lead downward, and checked once. -/
theorem files_linted_once_iff_overlapping :
    let o := { standard with paths := [".", "./a.robot", "/proj/a.robot"] }
    let files := (besideDirectory.project.scanned o.wanted (o.paths.map .ofString)).files
    besideDirectory.project.tree.hasPlainNames = true ∧
      (besideDirectory.project.gather o.wanted (o.paths.map .ofString)).error = none ∧
      (files.map (·.path.normalized)).Nodup ∧
      ∃ results : List (List Issue),
        List.Forall₂ (Run.IsCheckOf o besideDirectory forDocs.linter) files results ∧
          results.flatten.length = 1 := by
  intro o files
  have hnames : besideDirectory.project.tree.hasPlainNames = true := by decide
  have hfound : (besideDirectory.project.gather o.wanted (o.paths.map .ofString)).error = none := by
    decide +kernel
  have hplain : ∀ given ∈ o.paths, ".." ∉ (besideDirectory.project.absolute (.ofString given)).parts := by
    decide +kernel
  have hlength : (Run.checks o "0" besideDirectory forDocs).2.toOption.map (·.issues.length) = some 1 := by
    decide +kernel
  obtain ⟨-, hnodup, hrun⟩ := files_linted_once_iff o besideDirectory hnames hfound
  rcases hchecks : Run.checks o "0" besideDirectory forDocs with ⟨after, e | told⟩
  · rw [hchecks] at hlength
    cases hlength
  · obtain ⟨results, hresults, htold⟩ := hrun "0" forDocs after told hchecks
    have hissues : told.issues = results.flatten := htold
    rw [hchecks] at hlength
    exact ⟨hnames, hfound, hnodup hplain, results, hresults, hissues ▸ Option.some.inj hlength⟩

/-- The suite is checked twice, and told of under two names, if a path to it leads down and up again. -/
theorem file_linted_under_two_spellings :
    let o := { standard with paths := ["a.robot", "sub/../a.robot"] }
    ¬ ((besideDirectory.project.scanned o.wanted (o.paths.map .ofString)).files.map (·.path.normalized)).Nodup ∧
      ((Run.checks o "0" besideDirectory forDocs).2.toOption.map fun told =>
        told.issues.map fun i => (i.ruleId, i.line, i.source)) =
          some [("0203", 1, "/proj/a.robot"), ("0203", 1, "/proj/sub/../a.robot")] := by
  decide +kernel

end Options

end SuiteLint
