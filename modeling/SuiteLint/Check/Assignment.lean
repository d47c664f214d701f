import SuiteLint.Check.Finding
import SuiteLint.Name
import SuiteLint.Tally

/-! Assignment signs: equals signs after variables, or their absence, the same everywhere (0909, 0910). -/
namespace SuiteLint.Check.Assignment

def signOf (t : Token) : String := String.ofList (Name.assignmentSign t.value.toList)

def lastAssigned? (s : Statement) : Option Token := (s.tokensOf .assign).getLast?

def callsIn (s : Section) : List Statement :=
  if s.kind = .variableRows then [] else s.statements.filter (·.kind = .keywordCall)

def rowsIn (s : Section) : List Statement :=
  if s.kind = .variableRows then
    s.body.filterMap fun n => n.statement?.filter (·.kind = .variableRow)
  else []

def calls (d : Document) : List Statement := d.sections.flatMap callsIn

def rows (d : Document) : List Statement := d.sections.flatMap rowsIn

def rowToken (s : Statement) : Except Breakdown Token :=
  match s.token? [.variableName] with
  | some t => .ok t
  | none => .error .absentPart

def prevailing? (signs : List String) : Option String :=
  let t := Tally.ofList signs
  if 2 ≤ t.length then t.mostCommon? else none

def detect (d : Document) : Except Breakdown (Option String × Option String) := do
  let tokens ← (rows d).mapM rowToken
  return (prevailing? ((calls d).filterMap lastAssigned? |>.map signOf),
    prevailing? (tokens.map signOf))

def expected (vs : Values) (d : Document) :
    Except Breakdown (Option String × Option String) := do
  let inCalls := vs.text (RuleKey.inconsistentAssignment.slot "assignment_sign_type")
  let inRows := vs.text (RuleKey.inconsistentAssignmentInVariables.slot "assignment_sign_type")
  if inCalls = "autodetect" || inRows = "autodetect" then
    let (callSign, rowSign) ← detect d
    return (if inCalls = "autodetect" then callSign else some inCalls,
      if inRows = "autodetect" then rowSign else some inRows)
  else return (some inCalls, some inRows)

def judge (rule : RuleKey) (sign : String) (t : Token) : List Finding :=
  if signOf t = sign then []
  else [found rule [.string sign, .string (signOf t)] t.line (t.endColumn + 1)]

def inCall (sign : String) (s : Statement) : List Finding :=
  if (s.keyword?.getD "").isEmpty then []
  else match lastAssigned? s with
    | some t => judge .inconsistentAssignment sign t
    | none => []

def inRow (sign : String) (s : Statement) : Except Breakdown (List Finding) :=
  if !s.errors.isEmpty then .ok []
  else do
    let t ← rowToken s
    return judge .inconsistentAssignmentInVariables sign t

def inCalls (calls : List Statement) : Option String → List Finding
  | some sign => calls.flatMap (inCall sign)
  | none => []

def inRows (rows : List Statement) : Option String → Except Breakdown (List Finding)
  | some sign => gather (inRow sign) rows
  | none => .ok []

def inSection (callSign rowSign : Option String) (s : Section) : Except Breakdown (List Finding) := do
  let fromRows ← inRows (rowsIn s) rowSign
  return inCalls (callsIn s) callSign ++ fromRows

def check (vs : Values) (d : Document) : Except Breakdown (List Finding) := do
  let (callSign, rowSign) ← expected vs d
  gather (inSection callSign rowSign) d.sections

end SuiteLint.Check.Assignment
