import SuiteLint.Check.Finding
import SuiteLint.Name

/-! Variables: their values (0912), how their names are written (0309, 0310, 0317), and names that differ too
little (0316). -/
namespace SuiteLint.Check.Variable

def inRow (modern : Bool) (s : Statement) : List Finding :=
  if isFaulty modern s then []
  else
    (if (s.valuesOf .argument).isEmpty then [found .emptyVariable [] (anchor s.line) 1] else []) ++
      ((s.tokensOf .argument).filter fun t => t.value.isEmpty || t.value = "\\").map fun t =>
        found .emptyVariable [] t.line t.column

def checkEmpty (modern : Bool) (d : Document) : List Finding :=
  (d.statementsOf .variableRow).flatMap (inRow modern)

def isCapital (s : String) : Bool := Text.isUpperText s.toList

def inSectionRow (n : Node) : Except Breakdown (List Finding) :=
  match n with
  | .block .. => .error .absentPart
  | .leaf s =>
    match s.dataTokens with
    | t :: _ =>
      .ok (if t.kind = .variableName && !t.value.isEmpty && !isCapital t.value then
        [found .sectionVariableNotUppercase [] t.line (t.column + 1)] else [])
    | [] => .ok []

def setters : List String :=
  ["settaskvariable", "settestvariable", "setsuitevariable", "setglobalvariable"]

def inCall (s : Statement) : List Finding :=
  (((s.tokensOf .assign).filter (·.value.toList.contains '-')).map fun t =>
    found .hyphenInVariableName [] t.line (t.column + 1)) ++
  if setters.contains (Name.normalized (s.keyword?.getD "")) then
    match s.dataTokens with
    | _ :: t :: _ =>
      if t.kind = .argument && !isCapital t.value then
        [found .nonLocalVariablesShouldBeUppercase [] (anchor s.line) (t.column + 1)]
      else []
    | _ => []
  else []

def inSection (s : Section) : Except Breakdown (List Finding) :=
  if s.kind = .variableRows then gather inSectionRow s.body
  else .ok ((s.statements.filter (·.kind = .keywordCall)).flatMap inCall)

def checkNames (d : Document) : Except Breakdown (List Finding) := gather inSection d.sections

/-- The variables that are known while a document is read, by their compared forms, and the test or
keyword that they belong to. -/
structure Scope where
  known : List (String × List String)
  owner : Option String
  ownerKind : String

def Scope.outside : Scope := ⟨[], some "", ""⟩

namespace Scope

def spellings (s : Scope) (name : String) : Option (List String) :=
  s.known.lookup (Name.normalizedVariable name)

def learn (s : Scope) (name : String) : Scope :=
  let form := Name.normalizedVariable name
  match s.known.lookup form with
  | some names =>
    { s with known := s.known.map fun entry =>
        if entry.1 = form then (form, name :: names) else entry }
  | none => { s with known := (form, [name]) :: s.known }

/-- Enters a test case or keyword, whose arguments are known from the start. -/
def enter (kind : String) (n : Node) : Scope :=
  let arguments := n.body.flatMap fun child =>
    match child with
    | .leaf st => if st.kind = .arguments then st.valuesOf .argument else []
    | .block .. => []
  arguments.foldl learn ⟨[], n.name?, kind⟩

def resembles (s : Scope) (name : String) : Bool :=
  match s.spellings name with
  | some names => !names.contains name
  | none => false

def assign (s : Scope) : List Token → List Finding × Scope
  | [] => ([], s)
  | t :: ts =>
    let (more, s') := (s.learn t.value).assign ts
    ((if s.resembles t.value then
        [found .possibleVariableOverwriting
          [.string t.value, nameDatum s.owner, .string s.ownerKind] t.line t.column]
      else []) ++ more, s')

def visit (s : Scope) : Node → List Finding × Scope
  | .leaf st => if st.kind = .keywordCall then s.assign (st.tokensOf .assign) else ([], s)
  | .block .keyword header body orelse close errors =>
    ([], enter "Keyword" (.block .keyword header body orelse close errors))
  | .block .testCase header body orelse close errors =>
    ([], enter "TestCase" (.block .testCase header body orelse close errors))
  | .block .if_ .. => ([], s)
  | .block _ header .. => ([], (header.valuesOf .variableName).foldl learn s)

def visitAll (s : Scope) : List Node → List Finding × Scope
  | [] => ([], s)
  | n :: ns =>
    let (here, s') := s.visit n
    let (more, s'') := s'.visitAll ns
    (here ++ more, s'')

end Scope

def checkSimilar (s : Scope) (d : Document) : List Finding × Scope := s.visitAll d.visited

end SuiteLint.Check.Variable
