import SuiteLint.Check.Definition

/-! The names of suites, test cases, keywords, settings and sections (0301, 0306 to 0308, 0313 to 0315). -/
namespace SuiteLint.Check.Naming

def outsideFrom (index : Nat) (spans : List (Nat × Nat)) : List Char → List (Nat × Char)
  | [] => []
  | c :: rest =>
    match spans with
    | [] => (index, c) :: outsideFrom (index + 1) [] rest
    | (start, stop) :: more =>
      if index < start then (index, c) :: outsideFrom (index + 1) spans rest
      else outsideFrom (index + 1) (if index + 1 = stop then more else spans) rest

def inName (p : Text.Pattern) (owner : String) (spans : List Char → List (Nat × Nat))
    (s : Statement) : Except Breakdown (List Finding) :=
  match s.name? with
  | none => .error .absentName
  | some name =>
    .ok (((outsideFrom 0 (spans name.toList) name.toList).filter
      fun entry => p.foundIn [entry.2]).map fun (index, c) =>
        found .notAllowedCharInName [.string c.toString, .string owner] (anchor s.line)
          (s.column + index + 1))

def inStatement (p : Text.Pattern) (s : Statement) : Except Breakdown (List Finding) :=
  match s.kind with
  | .testCaseName => inName p "test case" (fun _ => []) s
  | .keywordName => inName p "keyword" Name.findVariables s
  | _ => .ok []

def suiteName (source : String) : String :=
  let path := Path.ofString source
  if Text.has "__init__".toList path.stem.toList then path.parent.name else path.stem

def checkCharacters (vs : Values) (fileName : String) (d : Document) :
    Except Breakdown (List Finding) := do
  let p := vs.pattern (RuleKey.notAllowedCharInName.slot "pattern")
  let suite := ((suiteName (Definition.sourceOf d fileName)).toList.filter
    fun c => p.foundIn [c]).map fun c =>
      found .notAllowedCharInName [.string c.toString, .string "suite"] (anchor d.line) 1
  let inside ← gather (inStatement p) d.statements
  return suite ++ inside

/-- The test case of a title that starts with no capital letter. -/
def title (n : Node) : List Finding :=
  match (n.name?.getD "").toList with
  | [] => [found .testCaseNameIsEmpty [] (anchor n.line) 1]
  | c :: _ =>
    if Text.isUpper c then [] else [found .notCapitalizedTestCaseTitle [] (anchor n.line) 1]

def checkTitles (d : Document) : List Finding := (d.outermost (· = .testCase)).flatMap title

/-- Whether three stars after a blank come at some place after at least one character, or at least
two if none was read yet. -/
def closesHeader (begun : Bool) : List Char → Bool
  | [] => false
  | c :: rest =>
    (begun && Text.isBlank c && "***".toList.isPrefixOf rest) ||
      (c != '\n' && closesHeader true rest)

def isFramed (s : List Char) : Bool :=
  match Text.after? "***".toList s with
  | some (c :: rest) => Text.isBlank c && closesHeader false rest
  | _ => false

def isTitleOrUpper (s : String) : Bool := Text.isTitleText s.toList || Text.isUpperText s.toList

def isNamedSetting : StatementKind → Bool
  | .suiteSetup | .testSetup | .setup | .teardown | .suiteTeardown | .testTeardown | .forceTags
  | .defaultTags | .libraryImport | .resourceImport | .variablesImport | .documentation | .tags
  | .timeout | .template | .arguments | .returnSetting => true
  | _ => false

def withoutBlanks (s : String) : List Char := Text.without ' ' s.toList

def otherName (s : Statement) : Except Breakdown (List Finding) :=
  match s.token? [.withName] with
  | none =>
    .ok (((s.tokensOf .argument).filter (·.value = "WITH NAME")).map fun t =>
      found .emptyLibraryAlias [] (anchor t.line) (t.column + 1))
  | some _ =>
    match s.name?, (s.tokensOf .name).getLast? with
    | some name, some last =>
      .ok (if withoutBlanks last.value == withoutBlanks name then
        [found .duplicatedLibraryAlias [] (anchor last.line) (last.column + 1)] else [])
    | _, _ => .error .absentItem

def inSetting (s : Statement) : Except Breakdown (List Finding) :=
  if s.kind = .sectionHeader then do
    let t ← firstData s
    return if isFramed t.value.toList && isTitleOrUpper t.value then []
      else [found .sectionNameInvalid [] (anchor s.line) 1]
  else if isNamedSetting s.kind then do
    let t ← firstData s
    let more ← if s.kind = .libraryImport then otherName s else pure []
    return (if isTitleOrUpper t.value then []
      else [found .settingNameNotInTitleCase [] (anchor s.line) 1]) ++ more
  else .ok []

def checkSettings (d : Document) : Except Breakdown (List Finding) :=
  gather inSetting d.statements

end SuiteLint.Check.Naming
