import SuiteLint.Config.ArgumentFile
import SuiteLint.Config.Command

/-! Where the options of a run come from: the command line, argument files, and the `.robocop` or
`pyproject.toml` of a project. -/
namespace SuiteLint

/-- A table of settings with underscores for dashes in the keys. Of two equal keys the last value
counts. -/
def Toml.plainKeys (entries : List (String × Toml.Value)) : List (String × Toml.Value) :=
  entries.foldl (fun table (key, v) =>
    let key := String.ofList (Text.replace ['-'] ['_'] key.toList)
    if (table.lookup key).isSome then Toml.replaceEntry key v table else table ++ [(key, v)]) []

namespace Options

/-- Takes in a setting from a table; none if there is no such setting. -/
def setFromTable? (o : Options) (key : String) (v : Toml.Value) : Option Options :=
  match key with
  | "paths" => some { o with paths := v.texts }
  | "format" => some { o with format := v.text?.getD "" }
  | "configure" => some { o with settings := v.texts }
  | "include" =>
    some { o with selection := { o.selection with
      included := addAll o.selection.included v.texts } }
  | "exclude" =>
    some { o with selection := { o.selection with
      excluded := addAll o.selection.excluded v.texts } }
  | "reports" => some { o with reports := addAll o.reports v.texts }
  | "ignore" => some { o with ignored := addAll o.ignored v.texts }
  | "ext_rules" => some { o with extraRules := addAll o.extraRules v.texts }
  | "filetypes" => some { o with fileTypes := addAll o.fileTypes (v.texts.map fileType) }
  | "threshold" =>
    some { o with selection := { o.selection with
      threshold := .ofThreshold (v.text?.getD "") } }
  | "output" => some { o with output := v.text? }
  | "no_recursive" => some { o with recursive := !v.isTrue }
  | "verbose" => some { o with verbose := v.isTrue }
  | _ => none

/-- What a command line starts from: of the options read before, only the lists that flags add to
stay, and the globs, for which there is no flag of their own. -/
def restart (o : Options) : Options :=
  { standard with
    selection := { o.selection with threshold := Selection.everything.threshold }
    ignored := o.ignored
    reports := o.reports
    extraRules := o.extraRules
    fileTypes := o.fileTypes
    origin := o.origin }

end Options

def Session.takeSettings (s : Session) (o : Options) :
    List (String × Toml.Value) → Session × Except LintError Options
  | [] => (s, .ok o)
  | (key, v) :: entries =>
    match o.setFromTable? key v with
    | none =>
      (s, .error (.invalidArgument
        ("Option '" ++ key ++ "' is not supported in pyproject.toml configuration file.")))
    | some o =>
      if key = "output" then
        match s.project.openFile (o.output.getD "") with
        | .error e => (s, .error (.unwritable e))
        | .ok project => Session.takeSettings { s with project := project } o entries
      else Session.takeSettings s o entries

/-- Takes in a table of settings; an empty one changes nothing. The answer tells whether there were
any. -/
def Session.takeTable (s : Session) (o : Options) (entries : List (String × Toml.Value)) :
    Session × Except LintError (Options × Bool) :=
  if entries.isEmpty then (s, .ok (o, false))
  else match s.takeSettings o (Toml.plainKeys entries) with
    | (s, .error e) => (s, .error e)
    | (s, .ok o) => (s, .ok (o, true))

def Session.takeProjectFile (s : Session) (o : Options) (path : Path) :
    Session × Except LintError Options :=
  match (s.project.file? path).bind fun f => Text.decode f.bytes with
  | none => (s, .error .undecodable)
  | some text =>
    match s.project.readToml (Text.plainLineFeeds text) with
    | none =>
      (s, .error (.invalidArgument ("Failed to decode " ++ path.toString ++ ": <toml error>")))
    | some table =>
      let settings := do
        let tool ← table.lookup "tool"
        tool.entries.lookup "robocop"
      match s.takeTable o ((settings.map Toml.Value.entries).getD []) with
      | (s, .error e) => (s, .error e)
      | (s, .ok (o, loaded)) => (s, .ok (if loaded then { o with origin := path.toString } else o))

structure Request where
  /-- The words of a command line; there are none if the options are set by a program. -/
  words : Option (List String)
  /-- Misuse ends the program with a message on its use. -/
  strict : Bool
  /-- Where the search for files with settings starts. -/
  root : Option Path
  options : Options

namespace Request

def ofWords (words : List String) : Request := ⟨some words, true, none, .standard⟩

def endingOf (r : Request) : Ending → Ending
  | .misused e => if r.strict then .misused e else .failed (.invalidArgument e.message)
  | e => e

def looksForFiles (words : List String) : Bool :=
  words.isEmpty || words = ["--verbose"] || words = ["-vv"]

/-- The words to read and the options read so far: the command line with its argument files, and the
files with settings where they are looked for. -/
def gather (r : Request) (s : Session) : Session × Except LintError (List String × Options) :=
  match ArgumentFile.splice s.project (r.words.getD []) with
  | .error e => (s, .error e)
  | .ok (words, origin) =>
    let o := { r.options with origin := origin.getD r.options.origin }
    if !looksForFiles words then (s, .ok (words, o))
    else
      let root := r.root.getD s.project.cwd
      match s.project.settingsFile? root ".robocop" with
      | some path =>
        match ArgumentFile.load s.project path.toString with
        | .error e => (s, .error e)
        | .ok found =>
          (s, .ok (words ++ found,
            if found.isEmpty then o else { o with origin := path.toString }))
      | none =>
        match s.project.settingsFile? root "pyproject.toml" with
        | none => (s, .ok (words, o))
        | some path =>
          match s.takeProjectFile o path with
          | (s, .error e) => (s, .error e)
          | (s, .ok o) => (s, .ok (words, o))

/-- The options that words are read on top of. Of the options that a program has set, only the globs
stay. -/
def base (r : Request) (o : Options) : Options :=
  if r.words.isSome then o.restart
  else
    { Options.standard with
      selection := { Selection.everything with
        includedGlobs := o.selection.includedGlobs
        excludedGlobs := o.selection.excludedGlobs }
      origin := o.origin }

def originNote (o : Options) : String :=
  if o.origin.isEmpty then
    "No config file found or configuration is empty. Using default configuration"
  else "Loaded configuration from " ++ o.origin

def load (r : Request) (s : Session) : Session × Except Ending Options :=
  match r.gather s with
  | (s, .error e) => (s, .error (.failed e))
  | (s, .ok (words, o)) =>
    let (s, outcome) :=
      if words.isEmpty then (s, .ok o) else Command.read s (r.base o) words
    match outcome with
    | .error e => (s, .error (r.endingOf e))
    | .ok o =>
      let o := o.tidy
      (if o.verbose then s.say (originNote o) else s, .ok o)

end Request

end SuiteLint
