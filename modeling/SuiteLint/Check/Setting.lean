import SuiteLint.Check.Finding

/-! Settings without values (0511 to 0526), and imports with arguments that they cannot take (0404). -/
namespace SuiteLint.Check.Setting

def isNameless (s : Statement) : Bool := (s.name?.getD "").isEmpty

def isValueless (s : Statement) : Bool := (s.valuesOf .argument).isEmpty

def lacksSetting (s : Statement) : Bool := (s.setting?.getD "").isEmpty

/-- The rule that an empty setting breaks. Settings of test cases and keywords are reported behind
their end, those of suites on it. -/
def broken (s : Statement) : Option (RuleKey × Int) :=
  let on (rule : RuleKey) (empty : Bool) := if empty then some (rule, s.endColumn) else none
  let behind (rule : RuleKey) (empty : Bool) :=
    if empty then some (rule, s.endColumn + 1) else none
  match s.kind with
  | .metadata => on .emptyMetadata s.name?.isNone
  | .documentation => on .emptyDocumentation (s.longText? = some "")
  | .forceTags => on .emptyForceTags (isValueless s)
  | .defaultTags => on .emptyDefaultTags (isValueless s)
  | .variablesImport => on .emptyVariablesImport (isNameless s)
  | .resourceImport => on .emptyResourceImport (isNameless s)
  | .libraryImport => on .emptyLibraryImport (isNameless s)
  | .setup => behind .emptySetup (isNameless s)
  | .suiteSetup => on .emptySuiteSetup (isNameless s)
  | .testSetup => on .emptyTestSetup (isNameless s)
  | .teardown => behind .emptyTeardown (isNameless s)
  | .suiteTeardown => on .emptySuiteTeardown (isNameless s)
  | .testTeardown => on .emptyTestTeardown (isNameless s)
  | .timeout => behind .emptyTimeout (lacksSetting s)
  | .testTimeout => on .emptyTestTimeout (lacksSetting s)
  | .arguments => behind .emptyArguments (isValueless s)
  | _ => none

def inStatement (s : Statement) : Except Breakdown (List Finding) :=
  if s.kind = .documentation && s.longText?.isNone then .error .absentPart
  else match broken s with
    | some (rule, col) => .ok [found rule [] (anchor s.line) col]
    | none => .ok []

def checkEmpty (d : Document) : Except Breakdown (List Finding) := gather inStatement d.statements

def takesNoArguments (s : Statement) : Bool :=
  let name := s.name?.getD ""
  !name.isEmpty && !name.endsWith ".py" && (s.token? [.argument]).isSome

def checkVariablesImports (d : Document) : List Finding :=
  ((d.statementsOf .variablesImport).filter takesNoArguments).map fun s =>
    found .variablesImportWithArgs [] (anchor s.line) 1

end SuiteLint.Check.Setting
