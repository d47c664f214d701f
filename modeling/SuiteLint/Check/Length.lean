import SuiteLint.Check.Finding
import SuiteLint.Name

/-! How long files, keywords and test cases are, and how much they hold (0501 to 0507, 0509, 0510, 0527). -/
namespace SuiteLint.Check.Length

mutual

/-- The number of keyword calls in a node. Only the first branch of an IF counts. -/
def calls : Node → Nat
  | .leaf s => if s.kind = .keywordCall then 1 else 0
  | .block _ _ body _ _ _ => callsOf body

def callsOf : List Node → Nat
  | [] => 0
  | n :: ns => calls n + callsOf ns

end

def lastFilledLine (n : Node) : Int :=
  match n.body.reverse.find? (!·.isStatement .emptyLine) with
  | some child => child.line
  | none => n.line

def span (n : Node) : Int := n.endLine - n.line

def counted (rule : RuleKey) (count limit : Int) (n : Node) : Finding :=
  found rule [.integer count, .integer limit] (anchor n.line) 1

def argumentCount (n : Node) : Int :=
  match n.body.find? (·.isStatement .arguments) with
  | some (.leaf s) => (s.valuesOf .argument).length
  | _ => 0

def tooManyArguments (vs : Values) (n : Node) : List Finding :=
  let limit := vs.integer (RuleKey.tooManyArguments.slot "max_args")
  if n.body.any (·.isStatement .arguments) && limit < argumentCount n then
    [counted .tooManyArguments (argumentCount n) limit n]
  else []

/-- A keyword that is too long is not reported for the number of its calls. -/
def inKeyword (vs : Values) (n : Node) : List Finding :=
  let longest := vs.integer (RuleKey.tooLongKeyword.slot "max_len")
  let fewest := vs.integer (RuleKey.tooFewCallsInKeyword.slot "min_calls")
  let most := vs.integer (RuleKey.tooManyCallsInKeyword.slot "max_calls")
  tooManyArguments vs n ++
    if longest < span n then
      [⟨.tooLongKeyword, [.integer (span n), .integer longest], n.endLine, 1,
        [n.line, lastFilledLine n]⟩]
    else if (calls n : Int) < fewest then [counted .tooFewCallsInKeyword (calls n) fewest n]
    else if most < calls n then [counted .tooManyCallsInKeyword (calls n) most n]
    else []

def inTestCase (vs : Values) (n : Node) : List Finding :=
  let longest := vs.integer (RuleKey.tooLongTestCase.slot "max_len")
  let most := vs.integer (RuleKey.tooManyCallsInTestCase.slot "max_calls")
  (if longest < span n then [counted .tooLongTestCase (span n) longest n] else []) ++
    if most < calls n then [counted .tooManyCallsInTestCase (calls n) most n] else []

def inDefinition (vs : Values) (n : Node) : Except Breakdown (List Finding) :=
  if n.isBlock .testCase then .ok (inTestCase vs n)
  else do
    let name ← requiredName n
    return if isCommentedOut name then [] else inKeyword vs n

def inFile (vs : Values) (d : Document) : List Finding :=
  let most := vs.integer (RuleKey.fileTooLong.slot "max_lines")
  if most < d.endLine then
    [found .fileTooLong [.integer d.endLine, .integer most] d.endLine 1]
  else []

def check (vs : Values) (d : Document) : Except Breakdown (List Finding) := do
  let inside ← gather (inDefinition vs) (d.outermost fun k => k = .testCase || k = .keyword)
  return inFile vs d ++ inside

def isEmptySection (s : Section) : Bool :=
  s.body.all fun n =>
    n.isStatement .emptyLine || (s.kind != .comments && n.isStatement .comment)

def checkSections (d : Document) : List Finding :=
  (d.sections.filter isEmptySection).map fun s => found .emptySection [] (anchor s.line) 1

def returned (s : Statement) : Option Int :=
  let values : Int := (s.valuesOf .argument).length
  match s.kind with
  | .returnSetting => some values
  | .keywordCall =>
    let name := Name.normalized (s.keyword?.getD "")
    if name = "returnfromkeyword" then some values
    else if name = "returnfromkeywordif" then some (values - 1)
    else none
  | _ => none

def checkReturned (vs : Values) (d : Document) : List Finding :=
  let most := vs.integer (RuleKey.numberOfReturnedValues.slot "max_returns")
  d.statements.flatMap fun s =>
    match returned s with
    | some count =>
      if most < count then
        [found .numberOfReturnedValues [.integer count, .integer most] (anchor s.line) 1]
      else []
    | none => []

def checkTestCases (vs : Values) (templated : Bool) (d : Document) : List Finding :=
  let most := vs.integer (RuleKey.tooManyTestCases.slot
    (if templated then "max_templated_testcases" else "max_testcases"))
  (d.sections.filter (·.kind = .testCases)).flatMap fun s =>
    let count : Int := (s.body.filter (·.isBlock .testCase)).length
    if most < count then
      [found .tooManyTestCases [.integer count, .integer most] (anchor s.line) 1]
    else []

end SuiteLint.Check.Length
