/-! Tokens: the smallest pieces of a suite file, with their places. -/
namespace SuiteLint

inductive TokenKind where
  | settingHeader | variableHeader | testCaseHeader | keywordHeader | commentHeader
  | testCaseName | keywordName
  | documentation | suiteSetup | suiteTeardown | metadata | testSetup | testTeardown | testTemplate
  | testTimeout | forceTags | defaultTags | library | resource | variablesFile
  | setup | teardown | template | timeout | tags | arguments | returnSetting
  | name | variableName | argument | assign | keyword | withName
  | for_ | forSeparator | if_ | elseIf | else_ | end_
  | separator | comment | continuation | eol | eos
  | error
  | other (label : String)
  deriving DecidableEq

namespace TokenKind

def labels : List (String × TokenKind) :=
  [("SETTING HEADER", settingHeader), ("VARIABLE HEADER", variableHeader),
   ("TESTCASE HEADER", testCaseHeader), ("KEYWORD HEADER", keywordHeader),
   ("COMMENT HEADER", commentHeader), ("TESTCASE NAME", testCaseName),
   ("KEYWORD NAME", keywordName), ("DOCUMENTATION", documentation), ("SUITE SETUP", suiteSetup),
   ("SUITE TEARDOWN", suiteTeardown), ("METADATA", metadata), ("TEST SETUP", testSetup),
   ("TEST TEARDOWN", testTeardown), ("TEST TEMPLATE", testTemplate), ("TEST TIMEOUT", testTimeout),
   ("FORCE TAGS", forceTags), ("DEFAULT TAGS", defaultTags), ("LIBRARY", library),
   ("RESOURCE", resource), ("VARIABLES", variablesFile), ("SETUP", setup), ("TEARDOWN", teardown),
   ("TEMPLATE", template), ("TIMEOUT", timeout), ("TAGS", tags), ("ARGUMENTS", arguments),
   ("RETURN", returnSetting), ("NAME", name), ("VARIABLE", variableName), ("ARGUMENT", argument),
   ("ASSIGN", assign), ("KEYWORD", keyword), ("WITH NAME", withName), ("FOR", for_),
   ("FOR SEPARATOR", forSeparator), ("IF", if_), ("ELSE IF", elseIf), ("ELSE", else_),
   ("END", end_), ("SEPARATOR", separator), ("COMMENT", comment), ("CONTINUATION", continuation),
   ("EOL", eol), ("EOS", eos), ("ERROR", error)]

def ofLabel (label : String) : TokenKind := (labels.lookup label).getD (other label)

def isData : TokenKind → Bool
  | separator | comment | continuation | eol | eos => false
  | _ => true

def isHeader : TokenKind → Bool
  | settingHeader | variableHeader | testCaseHeader | keywordHeader | commentHeader => true
  | _ => false

end TokenKind

/-- A token with its line, counted from one, and its column, counted from zero; both are minus one
where the place is not known. -/
structure Token where
  kind : TokenKind
  value : String
  line : Int
  column : Int
  deriving DecidableEq

def Token.endColumn (t : Token) : Int :=
  if t.column = -1 then -1 else t.column + t.value.length

end SuiteLint
