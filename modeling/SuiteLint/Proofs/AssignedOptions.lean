import SuiteLint.Config.Load

/-!
# Options that a program sets

A `pyproject.toml` changes the options that it names and no others. A `.robocop` is read on top of the options
as they start out, so what a program has set before is lost, but for the globs.
-/

namespace SuiteLint

/-- The options that a program can set. Globs of rules go with the names of rules. -/
inductive OptionField where
  | included | excluded | ignored | reports | settings | format | paths | extraRules | fileTypes
  | listing | paramListing | listsReports | output | recursive | threshold | verbose
  deriving DecidableEq

namespace OptionField

abbrev Value : OptionField → Type
  | included | excluded => List String × List Text.Glob
  | ignored | reports | settings | paths | extraRules | fileTypes => List String
  | format => String
  | listing | paramListing => RulePattern
  | output => Option String
  | threshold => Severity
  | listsReports | recursive | verbose => Bool

/-- The option that a flag is for. -/
def ofFlag? : Flag → Option OptionField
  | .included => some included
  | .excluded => some excluded
  | .extraRules => some extraRules
  | .flat => some recursive
  | .reports => some reports
  | .format => some format
  | .setting => some settings
  | .listing => some listing
  | .paramListing => some paramListing
  | .reportListing => some listsReports
  | .output => some output
  | .fileTypes => some fileTypes
  | .threshold => some threshold
  | .ignored => some ignored
  | .verbose => some verbose
  | .argumentFile | .help | .version | .directives => none

/-- The option that a key of a table is for. -/
def ofKey? : String → Option OptionField
  | "paths" => some paths
  | "format" => some format
  | "configure" => some settings
  | "include" => some included
  | "exclude" => some excluded
  | "reports" => some reports
  | "ignore" => some ignored
  | "ext_rules" => some extraRules
  | "filetypes" => some fileTypes
  | "threshold" => some threshold
  | "output" => some output
  | "no_recursive" => some recursive
  | "verbose" => some verbose
  | _ => none

end OptionField

namespace Options

def get (o : Options) : (field : OptionField) → field.Value
  | .included => (o.selection.included, o.selection.includedGlobs)
  | .excluded => (o.selection.excluded, o.selection.excludedGlobs)
  | .ignored => o.ignored
  | .reports => o.reports
  | .settings => o.settings
  | .format => o.format
  | .paths => o.paths
  | .extraRules => o.extraRules
  | .fileTypes => o.fileTypes
  | .listing => o.listing
  | .paramListing => o.paramListing
  | .listsReports => o.listsReports
  | .output => o.output
  | .recursive => o.recursive
  | .threshold => o.selection.threshold
  | .verbose => o.verbose

def IsStandard (o : Options) : OptionField → Prop
  | .included => o.selection.included = []
  | .excluded => o.selection.excluded = []
  | field => o.get field = standard.get field

private theorem get_origin (o : Options) (origin : String) (field : OptionField) :
    { o with origin := origin }.get field = o.get field := by
  cases field <;> rfl

private theorem get_paths_of_ne (o : Options) (paths : List String) {field : OptionField} (h : field ≠ .paths) :
    { o with paths := paths }.get field = o.get field := by
  cases field <;> first | exact absurd rfl h | rfl

private theorem get_set (o : Options) {f : Flag} (value : String) {field : OptionField}
    (h : OptionField.ofFlag? f ≠ some field) : (o.set f value).get field = o.get field := by
  cases f <;> cases field <;> first | exact absurd rfl h | simp only [set, get]

theorem get_setFromTable? {o p : Options} {key : String} {v : Toml.Value} {field : OptionField}
    (hset : o.setFromTable? key v = some p) (h : OptionField.ofKey? key ≠ some field) :
    p.get field = o.get field := by
  unfold setFromTable? at hset
  split at hset <;> cases hset <;> cases field <;> first | exact absurd rfl h | simp only [get]

theorem get_tidy_congr {o p : Options} {field : OptionField} (h : p.get field = o.get field) :
    p.tidy.get field = o.tidy.get field := by
  cases field with
  | included =>
    obtain ⟨hnames, hglobs⟩ := Prod.mk.inj h
    simp only [get, tidy, Selection.tidy, hnames, hglobs]
  | excluded =>
    obtain ⟨hnames, hglobs⟩ := Prod.mk.inj h
    simp only [get, tidy, Selection.tidy, hnames, hglobs]
  | settings => exact congrArg (List.map tidySetting) h
  | _ => exact h

end Options

namespace Text

theorem foldl_insertText_ne_nil (texts : List String) {seen : List String} (h : seen ≠ []) :
    texts.foldl insertText seen ≠ [] := by
  induction texts generalizing seen with
  | nil => exact h
  | cons s texts ih =>
    apply ih
    unfold insertText
    split
    · exact h
    · simp

private theorem distinct_eq_nil_iff {texts : List String} : distinct texts = [] ↔ texts = [] := by
  cases texts with
  | nil => exact ⟨fun _ => rfl, fun _ => rfl⟩
  | cons s texts =>
    have hfirst : distinct (s :: texts) ≠ [] := foldl_insertText_ne_nil texts (List.cons_ne_nil s [])
    exact ⟨fun h => absurd h hfirst, fun h => absurd h (List.cons_ne_nil s texts)⟩

end Text

namespace Selection

theorem splitNames_eq_nil_iff {names : List String} : splitNames names = ([], []) ↔ names = [] := by
  rw [splitNames, Prod.mk.injEq, Text.distinct_eq_nil_iff, List.map_eq_nil_iff, List.filter_eq_nil_iff,
    List.filter_eq_nil_iff]
  constructor
  · rintro ⟨hplain, hglobs⟩
    rw [List.eq_nil_iff_forall_not_mem]
    intro name hname
    exact hplain name hname (by simpa using hglobs name hname)
  · rintro rfl
    simp

theorem names_dropped_iff {names : List String} {globs : List Text.Glob} :
    ((splitNames ([].map withoutSeverity)).1, globs ++ (splitNames ([].map withoutSeverity)).2) =
        ((splitNames (names.map withoutSeverity)).1,
          globs ++ (splitNames (names.map withoutSeverity)).2) ↔
      names = [] := by
  have hsplit := @splitNames_eq_nil_iff (names.map withoutSeverity)
  rw [List.map_eq_nil_iff] at hsplit
  rw [← hsplit, Prod.mk.injEq, List.append_cancel_left_eq, ← Prod.ext_iff]
  exact eq_comm

end Selection

namespace Toml

def plainKey (key : String) : String := String.ofList (Text.replace ['-'] ['_'] key.toList)

def putPlain (table : List (String × Value)) (entry : String × Value) : List (String × Value) :=
  if (table.lookup (plainKey entry.1)).isSome then replaceEntry (plainKey entry.1) entry.2 table
  else table ++ [(plainKey entry.1, entry.2)]

theorem plainKeys_eq (entries : List (String × Value)) : plainKeys entries = entries.foldl putPlain [] :=
  rfl

theorem forall_putPlain {P : String → Prop} {table : List (String × Value)}
    (htable : ∀ entry ∈ table, P entry.1) {entry : String × Value} (hentry : P (plainKey entry.1)) :
    ∀ other ∈ putPlain table entry, P other.1 := by
  intro other hother
  unfold putPlain at hother
  split at hother
  · obtain ⟨old, hold, rfl⟩ := List.mem_map.mp hother
    split
    · exact hentry
    · exact htable old hold
  · rcases List.mem_append.mp hother with hold | hnew
    · exact htable other hold
    · rw [List.mem_singleton.mp hnew]
      exact hentry

private theorem forall_plainKeys {P : String → Prop} {entries : List (String × Value)}
    (h : ∀ entry ∈ entries, P (plainKey entry.1)) : ∀ entry ∈ plainKeys entries, P entry.1 := by
  rw [plainKeys_eq]
  refine List.foldlRecOn (motive := fun table : List (String × Value) => ∀ entry ∈ table, P entry.1)
    entries putPlain (by simp) ?_
  exact fun table htable entry hentry => forall_putPlain htable (h entry hentry)

end Toml

namespace Session

variable {s s' : Session} {o p : Options} {field : OptionField}

/-- A table leaves the options that none of its keys is for. -/
theorem get_takeSettings {entries : List (String × Toml.Value)}
    (h : s.takeSettings o entries = (s', .ok p))
    (hfield : ∀ entry ∈ entries, OptionField.ofKey? entry.1 ≠ some field) :
    p.get field = o.get field := by
  induction entries generalizing s o with
  | nil =>
    obtain rfl := Except.ok.inj (Prod.mk.inj h).2
    rfl
  | cons entry entries ih =>
    obtain ⟨key, v⟩ := entry
    have hkey := hfield (key, v) List.mem_cons_self
    have hrest := fun entry hentry => hfield entry (List.mem_cons_of_mem _ hentry)
    unfold takeSettings at h
    split at h
    · cases h
    · next q hset =>
      have hstep := Options.get_setFromTable? hset hkey
      split at h
      · split at h
        · cases h
        · exact (ih h hrest).trans hstep
      · exact (ih h hrest).trans hstep

theorem get_takeTable {entries : List (String × Toml.Value)} {loaded : Bool}
    (h : s.takeTable o entries = (s', .ok (p, loaded)))
    (hfield : ∀ entry ∈ entries, OptionField.ofKey? (Toml.plainKey entry.1) ≠ some field) :
    p.get field = o.get field := by
  unfold takeTable at h
  split at h
  · cases h
    rfl
  · split at h
    · cases h
    · next htaken =>
      cases h
      exact get_takeSettings htaken
        (@Toml.forall_plainKeys (OptionField.ofKey? · ≠ some field) entries hfield)

end Session

namespace Command

/-- The options that a command line names, by flags or by paths. -/
def named (words : List String) : List OptionField :=
  match classifyAll words with
  | .error _ => []
  | .ok classified =>
    let parsed := parse .before classified
    parsed.acts.filterMap (OptionField.ofFlag? ·.flag) ++
      if (parsed.paths.erase "--").isEmpty then [] else [.paths]

variable {s s' : Session} {o p : Options} {field : OptionField}

/-- Flags leave the options that none of them is for. -/
theorem get_perform {acts : List Act} (h : perform s o acts = (s', .ok p))
    (hfield : ∀ act ∈ acts, OptionField.ofFlag? act.flag ≠ some field) :
    p.get field = o.get field := by
  induction acts generalizing s o with
  | nil =>
    obtain rfl := Except.ok.inj (Prod.mk.inj h).2
    rfl
  | cons act acts ih =>
    have hstep := o.get_set (act.value.getD "") (hfield act List.mem_cons_self)
    have hrest := fun act hact => hfield act (List.mem_cons_of_mem _ hact)
    simp only [perform] at h
    split at h
    · cases h
    · split at h
      · split at h
        · cases h
        · exact (ih h hrest).trans hstep
      · exact (ih h hrest).trans hstep

/-- A command line leaves the options that it does not name, but without paths the standard ones are taken. -/
theorem get_read {words : List String} (h : read s o words = (s', .ok p)) (hfield : field ∉ named words) :
    p.get field = { o with paths := Options.standard.paths }.get field := by
  unfold read at h
  unfold named at hfield
  split at h
  · cases h
  · next classified hclassified =>
    rw [hclassified] at hfield
    simp only [List.mem_append, List.mem_filterMap, not_or, not_exists, not_and] at hfield
    obtain ⟨hacts, hpaths⟩ := hfield
    simp only at h
    split at h
    · cases h
    · next hperform =>
      have hflags := get_perform hperform hacts
      split at h
      · cases h
      · cases h
        by_cases hother : field = .paths
        · subst hother
          have hnone : (parse .before classified).paths.erase "--" = [] := by
            apply Classical.byContradiction
            intro hsome
            simp [hsome] at hpaths
          simp only [Parsed.pathList, hnone, Options.get]
        · exact (Options.get_paths_of_ne _ _ hother).trans
            (hflags.trans (Options.get_paths_of_ne _ _ hother).symm)
      · cases h

end Command

/-- A file with settings: the words of `.robocop`, or the entries of a table of `pyproject.toml`. -/
inductive SettingsFile where
  | arguments (words : List String)
  | table (entries : List (String × Toml.Value))

namespace SettingsFile

/-- The options that a file names. -/
def named : SettingsFile → List OptionField
  | arguments words => Command.named words
  | table entries => entries.filterMap fun entry => OptionField.ofKey? (Toml.plainKey entry.1)

/-- The words of a file that are read like a command line. -/
def words : SettingsFile → List String
  | arguments words => words
  | table _ => []

end SettingsFile

def Toml.settings (table : List (String × Value)) : List (String × Value) :=
  (((table.lookup "tool").bind fun tool => tool.entries.lookup "robocop").map Value.entries).getD []

/-- The file with settings that a project holds. A `pyproject.toml` is read if there is no `.robocop`. -/
inductive Project.Finds (project : Project) (root : Path) : SettingsFile → Prop
  | arguments {path : Path} {words : List String}
      (hpath : project.settingsFile? root ".robocop" = some path)
      (hwords : ArgumentFile.load project path.toString = .ok words) : Finds project root (.arguments words)
  | table {path : Path} {text : List Char} {table : List (String × Toml.Value)}
      (hnone : project.settingsFile? root ".robocop" = none)
      (hpath : project.settingsFile? root "pyproject.toml" = some path)
      (htext : ((project.file? path).bind fun f => Text.decode f.bytes) = some text)
      (htable : project.readToml (Text.plainLineFeeds text) = some table) :
      Finds project root (.table (Toml.settings table))

theorem Session.get_takeProjectFile {s s' : Session} {o p : Options} {path : Path} {text : List Char}
    {table : List (String × Toml.Value)} (h : s.takeProjectFile o path = (s', .ok p))
    (htext : ((s.project.file? path).bind fun f => Text.decode f.bytes) = some text)
    (htable : s.project.readToml (Text.plainLineFeeds text) = some table) {field : OptionField}
    (hfield : field ∉ (SettingsFile.table (Toml.settings table)).named) :
    p.get field = o.get field := by
  have hkeys : ∀ entry ∈ Toml.settings table,
      OptionField.ofKey? (Toml.plainKey entry.1) ≠ some field := by
    intro entry hentry hkey
    exact hfield (List.mem_filterMap.mpr ⟨entry, hentry, hkey⟩)
  simp only [takeProjectFile, htext, htable] at h
  split at h
  · cases h
  · next q loaded htaken =>
    have hsame := get_takeTable htaken hkeys
    cases h
    split
    · rw [Options.get_origin, hsame]
    · exact hsame

namespace Request

variable {r : Request} {s s' : Session} {o p : Options} {field : OptionField}

private theorem get_base (hprogram : r.words = none) (origin : String) (field : OptionField) :
    { r.base { o with origin := origin } with paths := Options.standard.paths }.get field =
      (r.base o).get field := by
  simp only [base, hprogram]
  cases field <;> rfl

/-- Read like a command line, a file leaves an option that a program has set if it was set to what it
starts out as. -/
theorem get_tidy_eq_iff (hprogram : r.words = none) (h : p.get field = (r.base o).get field) :
    p.tidy.get field = o.tidy.get field ↔ o.IsStandard field := by
  have hbase : (r.base o).tidy.get field = o.tidy.get field ↔ o.IsStandard field := by
    unfold base
    rw [hprogram]
    cases field with
    | included => exact Selection.names_dropped_iff
    | excluded => exact Selection.names_dropped_iff
    | settings =>
      have hsettings : [] = o.settings.map Options.tidySetting ↔ o.settings = [] := by
        rw [eq_comm, List.map_eq_nil_iff]
      exact hsettings
    | _ => exact eq_comm
  rw [← hbase, Options.get_tidy_congr h]

theorem load_ok (h : r.load s = (s', .ok p)) :
    ∃ (s₁ s₂ : Session) (words : List String) (o q : Options), r.gather s = (s₁, .ok (words, o)) ∧
      (if words.isEmpty then (s₁, .ok o) else Command.read s₁ (r.base o) words) = (s₂, .ok q) ∧
      p = q.tidy := by
  unfold load at h
  split at h
  · cases h
  · next s₁ words o hgather =>
    generalize hread : (if words.isEmpty then (s₁, .ok o) else Command.read s₁ (r.base o) words) = answer
      at h
    obtain ⟨s₂, outcome⟩ := answer
    cases outcome with
    | error e => cases h
    | ok q => exact ⟨s₁, s₂, words, o, q, hgather, hread, (Except.ok.inj (Prod.mk.inj h).2).symm⟩

private theorem gather_arguments (hprogram : r.words = none) {path : Path} {words : List String}
    (hpath : s.project.settingsFile? (r.root.getD s.project.cwd) ".robocop" = some path)
    (hwords : ArgumentFile.load s.project path.toString = .ok words) :
    r.gather s =
      (s, .ok (words, if words.isEmpty then r.options else { r.options with origin := path.toString })) := by
  simp only [gather, hprogram, Option.getD_none, ArgumentFile.splice, looksForFiles, List.isEmpty_nil,
    Bool.true_or, Bool.not_true, Bool.false_eq_true, if_false, hpath, hwords, List.nil_append]

theorem gather_table (hprogram : r.words = none) {path : Path}
    (hnone : s.project.settingsFile? (r.root.getD s.project.cwd) ".robocop" = none)
    (hpath : s.project.settingsFile? (r.root.getD s.project.cwd) "pyproject.toml" = some path)
    {words : List String} (h : r.gather s = (s', .ok (words, o))) :
    words = [] ∧ s.takeProjectFile r.options path = (s', .ok o) := by
  simp only [gather, hprogram, Option.getD_none, ArgumentFile.splice, looksForFiles, List.isEmpty_nil,
    Bool.true_or, Bool.not_true, Bool.false_eq_true, if_false, hnone, hpath] at h
  split at h
  · cases h
  · next htaken =>
    cases h
    exact ⟨rfl, htaken⟩

/-- An option that a program has set, and that `.robocop` or `pyproject.toml` does not name, stays as it was
set, up to letters of severities and globs, with one exception: `.robocop` with any words in it takes the
option back to what it starts out as. -/
theorem unnamed_option_kept_iff (r : Request) (hprogram : r.words = none) {s s' : Session} {o : Options}
    (h : r.load s = (s', .ok o)) {file : SettingsFile}
    (hfile : s.project.Finds (r.root.getD s.project.cwd) file) {field : OptionField}
    (hfield : field ∉ file.named) :
    o.get field = r.options.tidy.get field ↔ file.words = [] ∨ r.options.IsStandard field := by
  obtain ⟨s₁, s₂, words, before, after, hgather, hread, rfl⟩ := load_ok h
  cases hfile with
  | arguments hpath hwords =>
    rw [gather_arguments hprogram hpath hwords] at hgather
    cases hgather
    cases words with
    | nil =>
      cases hread
      exact ⟨fun _ => Or.inl rfl, fun _ => rfl⟩
    | cons word words =>
      have hlost : after.get field = (r.base r.options).get field :=
        (Command.get_read hread hfield).trans (get_base hprogram _ field)
      rw [get_tidy_eq_iff hprogram hlost]
      exact ⟨Or.inr, fun hkept => hkept.resolve_left (List.cons_ne_nil word words)⟩
  | table hnone hpath htext htable =>
    obtain ⟨rfl, htaken⟩ := gather_table hprogram hnone hpath hgather
    cases hread
    have hsame := Session.get_takeProjectFile htaken htext htable hfield
    exact ⟨fun _ => Or.inl rfl, fun _ => Options.get_tidy_congr hsame⟩

private theorem eq_ok_of_toOption {ε α : Type} {x : Except ε α} {a : α} (h : x.toOption = some a) :
    x = .ok a := by
  cases x with
  | error e => cases h
  | ok b => exact congrArg _ (Option.some.inj h)

theorem load_of_included {names : List String}
    (h : (r.load s).2.toOption.map (·.selection.included) = some names) :
    ∃ (s' : Session) (o : Options), r.load s = (s', .ok o) ∧ o.selection.included = names := by
  obtain ⟨o, ho, hnames⟩ := Option.map_eq_some_iff.mp h
  exact ⟨_, o, Prod.ext rfl (eq_ok_of_toOption ho), hnames⟩

def includingOne : Request :=
  ⟨none, false, none, { Options.standard with
    selection := { Selection.everything with included := ["W0203"] } }⟩

end Request

def Toml.thresholdTable : List (String × Value) :=
  [("tool", .table [("robocop", .table [("threshold", .text "W")])])]

def Project.withFile (name text : String) : Project :=
  ⟨.directory [("proj", .directory [(name, .file (.plain text.toUTF8.toList))])], ⟨"/", ["proj"]⟩, [], [],
    fun _ => some Toml.thresholdTable⟩

def Project.withTable : Project := .withFile "pyproject.toml" "[tool.robocop]\nthreshold = \"W\"\n"

def Project.withArguments : Project := .withFile ".robocop" "--threshold W\n"

namespace Request

theorem unnamed_option_kept_iff_table :
    ∃ (file : SettingsFile) (s : Session) (o : Options),
      Project.withTable.Finds ⟨"/", ["proj"]⟩ file ∧ .included ∉ file.named ∧
      includingOne.load ⟨.withTable, []⟩ = (s, .ok o) ∧
      o.get .included = includingOne.options.tidy.get .included := by
  have hloaded : (includingOne.load ⟨.withTable, []⟩).2.toOption.map (·.selection.included) =
      some ["0203"] := by decide +kernel
  obtain ⟨s, o, hload, -⟩ := load_of_included hloaded
  have hnone : Project.withTable.settingsFile? ⟨"/", ["proj"]⟩ ".robocop" = none := by decide +kernel
  have hpath : Project.withTable.settingsFile? ⟨"/", ["proj"]⟩ "pyproject.toml" =
      some ⟨"/", ["proj", "pyproject.toml"]⟩ := by decide +kernel
  have htext : ((Project.withTable.file? ⟨"/", ["proj", "pyproject.toml"]⟩).bind fun f =>
      Text.decode f.bytes) = some "[tool.robocop]\nthreshold = \"W\"\n".toList := by decide +kernel
  have hfile := Project.Finds.table hnone hpath htext rfl
  have hunnamed : .included ∉ (SettingsFile.table (Toml.settings Toml.thresholdTable)).named := by
    decide +kernel
  refine ⟨_, s, o, hfile, hunnamed, hload, ?_⟩
  exact (unnamed_option_kept_iff includingOne rfl hload hfile hunnamed).mpr (Or.inl rfl)

/-- A `.robocop` with `--threshold` alone takes back `--include`. -/
theorem included_lost_to_argument_file :
    ∃ (file : SettingsFile) (s : Session) (o : Options),
      Project.withArguments.Finds ⟨"/", ["proj"]⟩ file ∧ .included ∉ file.named ∧
      includingOne.load ⟨.withArguments, []⟩ = (s, .ok o) ∧
      o.selection.included = [] ∧ includingOne.options.tidy.selection.included = ["0203"] := by
  have hloaded : (includingOne.load ⟨.withArguments, []⟩).2.toOption.map (·.selection.included) =
      some [] := by decide +kernel
  obtain ⟨s, o, hload, hlost⟩ := load_of_included hloaded
  have hpath : Project.withArguments.settingsFile? ⟨"/", ["proj"]⟩ ".robocop" =
      some ⟨"/", ["proj", ".robocop"]⟩ := by decide +kernel
  have hwords : (ArgumentFile.load .withArguments (Path.toString ⟨"/", ["proj", ".robocop"]⟩)).toOption =
      some ["--threshold", "W"] := by decide +kernel
  have hunnamed : .included ∉ (SettingsFile.arguments ["--threshold", "W"]).named := by decide +kernel
  exact ⟨_, s, o, .arguments hpath (eq_ok_of_toOption hwords), hunnamed, hload, hlost,
    by decide +kernel⟩

end Request

end SuiteLint
