import SuiteLint.Error
import SuiteLint.Issue
import SuiteLint.Tally

/-! Reports: what is told about all issues of a run. -/
namespace SuiteLint

inductive ReportKind where
  | fileStats | json | returnStatus | byRule | bySeverity | timer
  deriving DecidableEq

namespace ReportKind

def all : List ReportKind := [fileStats, json, returnStatus, byRule, bySeverity, timer]

def name : ReportKind → String
  | fileStats => "file_stats"
  | json => "json_report"
  | returnStatus => "return_status"
  | byRule => "rules_by_id"
  | bySeverity => "rules_by_error_type"
  | timer => "scan_timer"

def description : ReportKind → String
  | fileStats => "Prints overall statistics about number of processed files"
  | json => "Accumulates found issues in JSON format"
  | returnStatus => "Checks if number of specific issues exceed quality gate limits"
  | byRule => "Groups detected issues by rule id and prints it ordered by most common"
  | bySeverity => "Prints total number of issues grouped by severity"
  | timer => "Returns Robocop execution time"

end ReportKind

/-- How many issues of each severity are let through; any number if negative. -/
structure Gate where
  error : Int
  warning : Int
  info : Int
  deriving DecidableEq

namespace Gate

def standard : Gate := ⟨0, 0, -1⟩

def limit (g : Gate) : Severity → Int
  | .error => g.error
  | .warning => g.warning
  | .info => g.info

def setLimit (g : Gate) (s : Severity) (n : Int) : Gate :=
  match s with
  | .error => { g with error := n }
  | .warning => { g with warning := n }
  | .info => { g with info := n }

def readLimit (g : Gate) (s : List Char) : Gate :=
  match Text.cutAt '=' s with
  | (letter, some count) =>
    match Severity.all.find? fun s => s.letter.toList == Text.upper letter,
      Text.readInteger count with
    | some s, some n => g.setLimit s n
    | _, _ => g
  | (_, none) => g

def read (g : Gate) (value : String) : Gate := (Text.splitAt ':' value.toList).foldl readLimit g

def excess (g : Gate) (s : Severity) (count : Nat) : Nat :=
  if -1 < g.limit s ∧ g.limit s < count then (count - g.limit s).toNat else 0

end Gate

/-- The reports that are on, and what they have gathered. -/
structure Reports where
  active : List ReportKind
  byRule : Tally String
  bySeverity : Tally Severity
  issues : List Issue
  sources : List String
  fileCount : Nat
  gate : Gate
  status : Nat

namespace Reports

def ofNames (names : List String) : Reports :=
  ⟨ReportKind.all.filter fun k => names.contains "all" || names.contains k.name,
    [], [], [], [], 0, .standard, 0⟩

def find? (r : Reports) (name : String) : Option ReportKind := r.active.find? (·.name = name)

def has (r : Reports) (k : ReportKind) : Bool := r.active.contains k

def add (r : Reports) (i : Issue) : Reports :=
  { r with
    byRule := r.byRule.add i.fullName 1
    bySeverity := r.bySeverity.add i.severity 1
    issues := r.issues ++ [i]
    sources := Text.insertText r.sources i.source }

def configure (r : Reports) (k : ReportKind) (param value : String) : Except LintError Reports :=
  if k = .returnStatus && (param = "quality_gate" || param = "quality_gates") then
    .ok { r with gate := r.gate.read value }
  else .error (.unknownReportParam param k.name)

def settle (r : Reports) : Reports :=
  { r with
    status := min 255
      (r.status + r.bySeverity.foldr (fun entry n => r.gate.excess entry.1 entry.2 + n) 0) }

def padTo (width : Nat) (s : String) : String :=
  s ++ String.ofList (List.replicate (width - s.length) ' ')

def ruleCounts (r : Reports) : Tally String :=
  r.byRule.mergeSort fun a b => b.2 ≤ a.2

def byRuleText (r : Reports) : String :=
  match r.ruleCounts with
  | [] => "\nIssues by IDs:\nNo issues found"
  | counts =>
    let longest := (counts.map (·.1.length)).foldl max 0
    "\nIssues by IDs:\n" ++
      "\n".intercalate (counts.map fun entry => padTo longest entry.1 ++ " : " ++ toString entry.2)

def bySeverityText (r : Reports) : String :=
  match r.bySeverity with
  | [] => "\nFound 0 issues"
  | counts =>
    "\nFound " ++ toString (Tally.total counts) ++ " issue(s): " ++
      ", ".intercalate (counts.map fun entry => toString entry.2 ++ " " ++ entry.1.title ++ "(s)") ++
      "."

def fileStatsText (r : Reports) : String :=
  if r.fileCount = 0 then "\nNo files were processed"
  else if r.sources.isEmpty then
    "\nProcessed " ++ toString r.fileCount ++ " file(s) but no issues were found"
  else
    "\nProcessed " ++ toString r.fileCount ++ " file(s) from which " ++
      toString r.sources.length ++ " file(s) contained issues"

def timerText (seconds : String) : String := "\nScan took " ++ seconds ++ "s"

def text (r : Reports) (seconds : String) : ReportKind → Option String
  | .fileStats => some r.fileStatsText
  | .byRule => some r.byRuleText
  | .bySeverity => some r.bySeverityText
  | .timer => some (timerText seconds)
  | .json | .returnStatus => none

def listing : String :=
  "Available reports:\n" ++
    String.join (ReportKind.all.map fun k => padTo 20 k.name ++ " - " ++ k.description ++ "\n") ++
    "all                  - Turns on all available reports"

end Reports

end SuiteLint
