import SuiteLint.Linter

/-! The options of a run. -/
namespace SuiteLint

structure Options where
  selection : Selection
  ignored : List String
  reports : List String
  settings : List String
  format : String
  paths : List String
  extraRules : List String
  fileTypes : List String
  /-- The rules to list; no listing if the name is empty. -/
  listing : RulePattern
  paramListing : RulePattern
  listsReports : Bool
  output : Option String
  recursive : Bool
  verbose : Bool
  /-- The file that options were read from. -/
  origin : String

namespace Options

def standardFormat : String :=
  "\x7bsource\x7d:\x7bline\x7d:\x7bcol\x7d [\x7bseverity\x7d] \x7brule_id\x7d \x7bdesc\x7d (\x7bname\x7d)"

def standard : Options where
  selection := .everything
  ignored := []
  reports := ["return_status"]
  settings := []
  format := standardFormat
  paths := ["."]
  extraRules := []
  fileTypes := [".robot", ".resource", ".tsv"]
  listing := .exact ""
  paramListing := .exact ""
  listsReports := false
  output := none
  recursive := true
  verbose := false
  origin := ""

def tidySetting (setting : String) : String :=
  match Text.splitAt ':' setting.toList with
  | [target, param, value] =>
    Selection.withoutSeverity (String.ofList target) ++ ":" ++ String.ofList param ++ ":" ++
      String.ofList value
  | _ => setting

/-- Drops letters of severities and sets globs apart. -/
def tidy (o : Options) : Options :=
  { o with selection := o.selection.tidy, settings := o.settings.map tidySetting }

end Options

structure Setup where
  linter : Linter
  reports : Reports

/-- Checks the names of the selected rules once the linter is loaded: the notes on renamed rules, and
the linter unless some name is wrong. -/
def Options.reviewed (o : Options) :
    Except LintError Linter → List String × Except LintError Linter
  | .error e => ([], .error e)
  | .ok linter =>
    match o.selection.validate linter.host.walk linter.registry.known with
    | (notes, .error e) => (notes, .error e)
    | (notes, .ok _) => (notes, .ok linter)

def Options.linter (o : Options) (host : Host) : List String × Except LintError Linter :=
  o.reviewed (Linter.load o.selection host)

def Options.configure (o : Options) (linter : Linter) : Except LintError Setup := do
  let (registry, reports) ← linter.registry.configureAll (.ofNames o.reports) o.settings
  return ⟨{ linter with registry := registry }, reports⟩

/-- Sets up a linter: the notes on renamed rules, and the linter unless some option is wrong. -/
def Options.setup (o : Options) (host : Host) : List String × Except LintError Setup :=
  (o.linter host).map id (·.bind o.configure)

end SuiteLint
