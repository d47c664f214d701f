import SuiteLint.Project.Path
import SuiteLint.Rule
import SuiteLint.Text.Brace

/-! Issues: what is reported about a place in a file. -/
namespace SuiteLint

structure Issue where
  ruleId : String
  name : String
  severity : Severity
  line : Int
  col : Int
  endLine : Int
  endCol : Int
  desc : String
  source : String
  /-- Further lines on which a comment can switch the issue off. -/
  extraLines : List Int
  deriving DecidableEq

/-- Where an issue lies; what is left out follows from the rest. -/
structure Span where
  line : Option Int
  col : Option Int
  endLine : Option Int
  endCol : Option Int
  deriving DecidableEq

/-- An issue starts at the first place of a file and ends where it starts, if nothing else is said. -/
def Rule.issue (r : Rule) (args : List Datum) (source : String) (span : Span)
    (extraLines : List Int) : Except Text.PercentError Issue := do
  let desc ← Text.fill r.desc args
  let line := span.line.getD 1
  let col := span.col.getD 1
  return ⟨r.id, r.name, r.severity, line, col, span.endLine.getD line, span.endCol.getD col, desc,
    source, extraLines⟩

namespace Issue

def fullName (i : Issue) : String :=
  i.severity.letter ++ i.ruleId ++ " (" ++ i.name ++ ")"

def precedes (i j : Issue) : Bool :=
  if i.line ≠ j.line then decide (i.line < j.line)
  else if i.col ≠ j.col then decide (i.col < j.col)
  else !(j.ruleId < i.ruleId : Bool)

/-- Sorts issues and keeps the order of those with equal places and rules. -/
def sort (issues : List Issue) : List Issue := issues.mergeSort precedes

def fromZero (n : Int) : Nat := (n - 1).toNat

def relativeSource (root : Path) (i : Issue) : String :=
  if i.source.isEmpty then i.source
  else (root.way (root.join (Path.ofString i.source))).toString

def fields (root : Path) (i : Issue) : List (String × Text.Field) :=
  [("source", .text i.source), ("source_rel", .text (i.relativeSource root)),
   ("line", .number i.line), ("col", .number i.col), ("end_line", .number i.endLine),
   ("end_col", .number i.endCol), ("severity", .text i.severity.letter),
   ("rule_id", .text i.ruleId), ("desc", .text i.desc), ("name", .text i.name)]

def render (format : String) (root : Path) (i : Issue) : Except Text.BraceError String :=
  Text.Brace.render format (i.fields root)

end Issue

end SuiteLint
