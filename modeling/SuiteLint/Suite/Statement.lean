import SuiteLint.Suite.Token
import SuiteLint.Text.Blank
import SuiteLint.Text.Case
import SuiteLint.Text.Find

/-! Statements: the rows of a suite file, with the parts that the checks ask for. -/
namespace SuiteLint

inductive StatementKind where
  | sectionHeader
  | libraryImport | resourceImport | variablesImport
  | documentation | metadata | forceTags | defaultTags
  | suiteSetup | suiteTeardown | testSetup | testTeardown | testTemplate | testTimeout
  | variableRow
  | testCaseName | keywordName
  | setup | teardown | tags | template | timeout | arguments | returnSetting
  | keywordCall | templateArguments
  | forHeader | forLoopHeader | ifHeader | elseIfHeader | elseHeader | end_
  | comment | error | emptyLine
  deriving DecidableEq, Inhabited

namespace StatementKind

def labels : List (String × StatementKind) :=
  [("SectionHeader", sectionHeader), ("LibraryImport", libraryImport),
   ("ResourceImport", resourceImport), ("VariablesImport", variablesImport),
   ("Documentation", documentation), ("Metadata", metadata), ("ForceTags", forceTags),
   ("DefaultTags", defaultTags), ("SuiteSetup", suiteSetup), ("SuiteTeardown", suiteTeardown),
   ("TestSetup", testSetup), ("TestTeardown", testTeardown), ("TestTemplate", testTemplate),
   ("TestTimeout", testTimeout), ("Variable", variableRow), ("TestCaseName", testCaseName),
   ("KeywordName", keywordName), ("Setup", setup), ("Teardown", teardown), ("Tags", tags),
   ("Template", template), ("Timeout", timeout), ("Arguments", arguments),
   ("Return", returnSetting), ("KeywordCall", keywordCall),
   ("TemplateArguments", templateArguments), ("ForHeader", forHeader),
   ("ForLoopHeader", forLoopHeader), ("IfHeader", ifHeader), ("ElseIfHeader", elseIfHeader),
   ("ElseHeader", elseHeader), ("End", end_), ("Comment", comment), ("Error", error),
   ("EmptyLine", emptyLine)]

def ofLabel? (label : String) : Option StatementKind := labels.lookup label

end StatementKind

/-- A statement with its tokens and the errors that the reader of the file found in it. -/
structure Statement where
  kind : StatementKind
  tokens : List Token
  errors : List String
  deriving DecidableEq, Inhabited

namespace Statement

def line (s : Statement) : Int :=
  match s.tokens with
  | t :: _ => t.line
  | [] => -1

def column (s : Statement) : Int :=
  match s.tokens with
  | t :: _ => t.column
  | [] => -1

def endLine (s : Statement) : Int :=
  match s.tokens.getLast? with
  | some t => t.line
  | none => -1

def endColumn (s : Statement) : Int :=
  match s.tokens.getLast? with
  | some t => t.endColumn
  | none => -1

def dataTokens (s : Statement) : List Token := s.tokens.filter (·.kind.isData)

def token? (s : Statement) (kinds : List TokenKind) : Option Token :=
  s.tokens.find? fun t => kinds.contains t.kind

def tokensOf (s : Statement) (kind : TokenKind) : List Token := s.tokens.filter (·.kind = kind)

def valuesOf (s : Statement) (kind : TokenKind) : List String := (s.tokensOf kind).map (·.value)

def value? (s : Statement) (kind : TokenKind) : Option String :=
  (s.token? [kind]).map (·.value)

def cutLines : List Token → List (List Token)
  | [] => []
  | t :: rest =>
    if t.kind = .eol then [t] :: cutLines rest
    else match cutLines rest with
      | [] => [[t]]
      | line :: lines => (t :: line) :: lines

def lines (s : Statement) : List (List Token) := cutLines s.tokens

def headerToken? (s : Statement) : Option Token := s.tokens.find? (·.kind.isHeader)

/-- The kind of token that a statement is named for; a section header may lack it. -/
def mark? (s : Statement) : Option TokenKind :=
  match s.kind with
  | .sectionHeader => s.headerToken?.map (·.kind)
  | .libraryImport => some .library
  | .resourceImport => some .resource
  | .variablesImport => some .variablesFile
  | .documentation => some .documentation
  | .metadata => some .metadata
  | .forceTags => some .forceTags
  | .defaultTags => some .defaultTags
  | .suiteSetup => some .suiteSetup
  | .suiteTeardown => some .suiteTeardown
  | .testSetup => some .testSetup
  | .testTeardown => some .testTeardown
  | .testTemplate => some .testTemplate
  | .testTimeout => some .testTimeout
  | .variableRow => some .variableName
  | .testCaseName => some .testCaseName
  | .keywordName => some .keywordName
  | .setup => some .setup
  | .teardown => some .teardown
  | .tags => some .tags
  | .template => some .template
  | .timeout => some .timeout
  | .arguments => some .arguments
  | .returnSetting => some .returnSetting
  | .keywordCall => some .keyword
  | .templateArguments => some .argument
  | .forHeader | .forLoopHeader => some .for_
  | .ifHeader => some .if_
  | .elseIfHeader => some .elseIf
  | .elseHeader => some .else_
  | .end_ => some .end_
  | .comment => some .comment
  | .error => some .error
  | .emptyLine => some .eol

def squeezeFrom (inRun : Bool) : List Char → List Char
  | [] => []
  | c :: rest =>
    if Text.isBlank c then
      if inRun then squeezeFrom true rest else ' ' :: squeezeFrom true rest
    else c :: squeezeFrom false rest

def headerTitle (value : String) : String :=
  let isFrame (c : Char) := c == '*' || c == ' '
  String.ofList
    (Text.dropEndWhile isFrame ((squeezeFrom false value.toList).dropWhile isFrame))

def withoutEquals (value : String) : String :=
  match value.toList.reverse with
  | '=' :: rest => String.ofList (Text.trimRight rest.reverse)
  | _ => value

def name? (s : Statement) : Option String :=
  match s.kind with
  | .sectionHeader => s.headerToken?.map fun t => headerTitle t.value
  | .testCaseName => s.value? .testCaseName
  | .keywordName => s.value? .keywordName
  | .variableRow => (s.value? .variableName).map withoutEquals
  | _ => s.value? .name

def keyword? (s : Statement) : Option String := s.value? .keyword

def setting? (s : Statement) : Option String :=
  match s.token? [.name, .argument] with
  | some t => if Text.upper t.value.toList == "NONE".toList then none else some t.value
  | none => none

def joinByLine : List Token → List (Int × String)
  | [] => []
  | t :: rest =>
    match joinByLine rest with
    | (line, text) :: more =>
      if t.line = line then (line, t.value ++ " " ++ text) :: more
      else (t.line, t.value) :: (line, text) :: more
    | [] => [(t.line, t.value)]

/-- Whether a line goes on into the next one or holds its line end already: an odd number of
backslashes stands at its end, or before an n at its end. A line feed at the very end does not
count. -/
def runsOn (text : String) : Bool :=
  let back := match text.toList.reverse with
    | '\n' :: rest => rest
    | rest => rest
  let tail := match back with
    | 'n' :: rest => if rest.head? = some '\\' then rest else 'n' :: rest
    | rest => rest
  (tail.takeWhile (· == '\\')).length % 2 == 1

def joinLines : List String → String
  | [] => ""
  | [text] => text
  | text :: more => text ++ (if runsOn text then "" else "\n") ++ joinLines more

def longText? (s : Statement) : Option String :=
  let args := s.tokensOf .argument
  if args.head?.any (·.line = -1) then none else some (joinLines ((joinByLine args).map (·.2)))

end Statement

end SuiteLint
