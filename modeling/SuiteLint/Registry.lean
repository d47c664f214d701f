import SuiteLint.Report
import SuiteLint.Selection

/-! The registry of checkers: their rules can be looked up by name or id, switched on and off, and
configured. -/
namespace SuiteLint

/-- A checker with its rules, the values of their parameters, and the issues it has reported. -/
structure CheckerEntry (κ : Type) where
  tag : κ
  title : String
  rules : List Rule
  values : Values
  disabled : Bool
  issues : List Issue

namespace CheckerEntry

variable {κ : Type}

def ruleNamed? (c : CheckerEntry κ) (name : String) : Option Rule := c.rules.find? (·.name = name)

def select (c : CheckerEntry κ) (s : Selection) : CheckerEntry κ :=
  let rules := c.rules.map fun r => { r with enabled := s.admits r }
  { c with rules := rules, disabled := c.disabled || !rules.any (·.enabled) }

/-- An issue of one of the rules; none if the rule is off. -/
def issue (c : CheckerEntry κ) (name : String) (args : List Datum) (source : String) (span : Span)
    (extraLines : List Int) : Except LintError (Option Issue) :=
  match c.ruleNamed? name with
  | none => .error (.undefinedMessage name)
  | some r =>
    match r.issue args source span extraLines with
    | .error e => .error (.invalidUsage r.id e)
    | .ok i => .ok (if r.enabled then some i else none)

def collect (title : String) (rules : List Rule) :
    List (String × Datum) → Except LintError (List Rule)
  | [] => .ok rules
  | (id, body) :: more =>
    match Rule.ofBody id body with
    | .error e => .error (.invalidDefinition e)
    | .ok r =>
      if rules.any (·.name = r.name) then .error (.duplicatedRule "name" r.name title title)
      else collect title (rules ++ [r]) more

def define (tag : κ) (title : String) (definitions : List (String × Datum)) (values : Values) :
    Except LintError (CheckerEntry κ) := do
  let rules ← collect title [] definitions
  return ⟨tag, title, rules, values, false, []⟩

end CheckerEntry

/-- What a checker looks at: the lines of a file or the document in it. -/
inductive Reading where
  | lines | document
  deriving DecidableEq

/-- A checker that only defines rules: it fails on the first line, and on any missing document. -/
def CheckerEntry.scan (c : CheckerEntry Reading) (text : List Char) :
    Except LintError (List Issue) :=
  match c.tag, text with
  | .lines, [] => .ok []
  | .lines, _ => .error .noCheck
  | .document, _ => .error (.brokenCheck .absentPart)

/-- Where a rule is found: the place of its checker and its name. -/
structure RuleRef where
  checker : Nat
  rule : String
  deriving DecidableEq

/-- The checkers that were made, the places of those that are registered, and the rules of the
latter by their names and ids. -/
structure Registry (κ : Type) where
  checkers : List (CheckerEntry κ)
  registered : List Nat
  table : List (String × RuleRef)

namespace Registry

variable {κ : Type}

def empty : Registry κ := ⟨[], [], []⟩

def known (r : Registry κ) : List String := r.table.map (·.1)

def titleAt (r : Registry κ) (place : Nat) : String := ((r.checkers[place]?).map (·.title)).getD ""

/-- Enters rules into the table, each under its name and its id, until one is taken. -/
def enter (place : Nat) (title : String) (r : Registry κ) :
    List Rule → Registry κ × Except LintError Unit
  | [] => (r, .ok ())
  | rule :: rules =>
    match r.table.lookup rule.name, r.table.lookup rule.id with
    | some ref, _ => (r, .error (.duplicatedRule "name" rule.name title (r.titleAt ref.checker)))
    | none, some ref => (r, .error (.duplicatedRule "id" rule.id title (r.titleAt ref.checker)))
    | none, none =>
      enter place title
        { r with table := r.table ++ [(rule.name, ⟨place, rule.name⟩), (rule.id, ⟨place, rule.name⟩)] }
        rules

/-- Registers a checker with the rules that the selection admits. If that fails, the checker and the
rules before the failure stay. -/
def register (r : Registry κ) (s : Selection) (c : CheckerEntry κ) :
    Registry κ × Except LintError Unit :=
  let place := r.checkers.length
  let c := c.select s
  match enter place c.title { r with checkers := r.checkers ++ [c] } c.rules with
  | (r, .ok ()) => ({ r with registered := r.registered ++ [place] }, .ok ())
  | (r, .error e) => (r, .error e)

def active (r : Registry κ) : List (CheckerEntry κ) := r.registered.filterMap (r.checkers[·]?)

def latest? (r : Registry κ) (title : String) : Option Nat :=
  ((r.checkers.zipIdx.filter (·.1.title = title)).getLast?).map (·.2)

def modifyChecker (r : Registry κ) (place : Nat) (f : CheckerEntry κ → CheckerEntry κ) :
    Registry κ :=
  { r with checkers := r.checkers.modify place f }

def find? (r : Registry κ) (name : String) : Option (RuleRef × CheckerEntry κ × Rule) := do
  let ref ← r.table.lookup name
  let c ← r.checkers[ref.checker]?
  let rule ← c.ruleNamed? ref.rule
  return (ref, c, rule)

def modifyRule (r : Registry κ) (ref : RuleRef) (f : Rule → Rule) : Registry κ :=
  r.modifyChecker ref.checker fun c =>
    { c with rules := c.rules.map fun rule => if rule.name = ref.rule then f rule else rule }

def splitSetting (setting : String) : Option (String × String × String) :=
  match Text.cutAt ':' setting.toList with
  | (target, some rest) =>
    match Text.cutAt ':' rest with
    | (param, some value) =>
      some (String.ofList target, String.ofList param, String.ofList value)
    | (_, none) => none
  | (_, none) => none

def configureRule (r : Registry κ) (name param value : String) (ref : RuleRef)
    (c : CheckerEntry κ) (rule : Rule) : Except LintError (Registry κ) :=
  if param = "severity" then
    match Severity.ofSetting? value with
    | some s => .ok (r.modifyRule ref fun rule => { rule with severity := s })
    | none => .error (.invalidSeverity rule.name value)
  else match rule.param? param with
    | none => .error (.unknownParam param name (rule.configurables true c.values))
    | some p =>
      match p.kind.read value with
      | .error e => .error (.invalidValue e)
      | .ok v =>
        .ok (r.modifyChecker ref.checker fun c => { c with values := c.values.set p.slot v })

def configure (r : Registry κ) (reports : Reports) (setting : String) :
    Except LintError (Registry κ × Reports) :=
  match splitSetting setting with
  | none => .error (.invalidSetting setting)
  | some (target, param, value) =>
    match r.find? target with
    | some (ref, c, rule) => do
      let r ← r.configureRule target param value ref c rule
      return (r, reports)
    | none =>
      match reports.find? target with
      | some k => do
        let reports ← reports.configure k param value
        return (r, reports)
      | none => .error (.unknownTarget target (Suggestion.hint target r.known))

def configureAll (r : Registry κ) (reports : Reports) :
    List String → Except LintError (Registry κ × Reports)
  | [] => .ok (r, reports)
  | setting :: settings => do
    let (r, reports) ← r.configure reports setting
    r.configureAll reports settings

def matching (r : Registry κ) (p : RulePattern) : List (CheckerEntry κ × Rule) :=
  r.active.flatMap fun c => (c.rules.filter (·.isMatchedBy p)).map fun rule => (c, rule)

/-- The ids, sorted, of all rules in the table that the pattern matches. Rules that were entered
before a registration failed are among them. -/
def knownIds (r : Registry κ) (p : RulePattern) : List String :=
  let rules := r.table.filterMap fun (name, _) => (r.find? name).map (·.2.2)
  Text.dropRepeated (Text.sortTexts ((rules.filter (·.isMatchedBy p)).map (·.id)))

end Registry

end SuiteLint
