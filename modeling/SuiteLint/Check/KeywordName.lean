import SuiteLint.Check.Finding
import SuiteLint.Name

/-! The names of keywords, where they are defined and where they are called
(0302, 0303, 0305, 0311, 0312, 0318). -/
namespace SuiteLint.Check.KeywordName

def reservedWords (modern : Bool) : List (String × String) :=
  if modern then
    [("if", ""), ("for", "for loop"), ("end", "for loop or if"), ("while", ""), ("continue", "")]
  else [("for", "for loop"), ("end", "for loop"), ("while", ""), ("continue", "")]

def storyWords : List String := ["given", "when", "and", "but", "then"]

def isElse (s : String) : Bool :=
  let word := String.ofList (Text.lower s.toList)
  word = "else" || word = "else if"

def reservedAdvice (name marked : String) : String :=
  if marked.isEmpty then ""
  else ". It must be in uppercase (" ++ String.ofList (Text.upper name.toList) ++
    ") when used as a marker with '" ++ marked ++
    "'. Each marker should have minimum of 2 spaces as separator."

def tokenized : Node → Except Breakdown Statement
  | .leaf s => .ok s
  | .block .. => .error .absentPart

def reserved (name marked : String) (n : Node) : Finding :=
  found .keywordNameIsReservedWord [.string name, .string (reservedAdvice name marked)]
    (anchor n.line) 1

def branches (n : Node) : Except Breakdown (List Finding) := do
  let s ← tokenized n
  return (s.dataTokens.filter fun t => isElse t.value && !Text.isUpperText t.value.toList).map
    fun t => reserved t.value "Run Keyword If" n

def story (modern : Bool) (name : String) (n : Node) : Except Breakdown (List Finding) :=
  if storyWords.contains (String.ofList (Text.lower name.toList)) then do
    let s ← tokenized n
    let advice := match s.token? [.argument] with
      | some t =>
        ". Use one space between: '" ++ String.ofList (Text.capitalize name.toList) ++ " " ++
          t.value ++ "'"
      | none => ""
    let column := if modern then tokenColumn s [.name, .keyword]
      else if (s.token? [.name]).isSome then tokenColumn s [.name] else tokenColumn s [.keyword]
    return [found .bddWithoutKeywordCall [.string name, .string advice] (anchor n.line) column]
  else .ok []

def bareName (name : String) : List Char :=
  Text.without '\''
    ((Text.splitAt '.' (Name.removeVariables name.toList)).getLast?.getD [])

/-- The words of a name: runs of letters and digits. -/
def words (s : List Char) : List (List Char) :=
  Text.splitAt ' ' (s.map fun c => if Text.isWord c && c != '_' then c else ' ')

def startsSmall : List Char → Bool
  | c :: _ => Text.isLower c
  | [] => false

def spelling (convention : String) (name : String) (n : Node) : List Finding :=
  let bare := bareName name
  let judged := if convention = "first_word_capitalized" then (words bare).take 1 else words bare
  (if bare.contains '_' then [found .underscoreInKeywordName [] (anchor n.line) 1] else []) ++
    if judged.any startsSmall then [found .wrongCaseInKeywordName [] (anchor n.line) 1] else []

/-- Looks at the name of a keyword that is defined or called at a node. -/
def judge (modern : Bool) (convention : String) (name : String) (n : Node) :
    Except Breakdown (List Finding) :=
  if name.isEmpty || isCommentedOut name || name = "/" then .ok []
  else if Name.normalized name = "runkeywordif" then do
    let branchFindings ← branches n
    let storyFindings ← story modern name n
    return branchFindings ++ storyFindings ++ spelling convention name n
  else match (reservedWords modern).lookup (String.ofList (Text.lower name.toList)) with
    | some marked => .ok [reserved name marked n]
    | none => do
      let storyFindings ← story modern name n
      return storyFindings ++ spelling convention name n

def inCondition (body : List Node) : List Finding :=
  body.flatMap fun n =>
    match n with
    | .leaf s =>
      if s.kind = .keywordCall && isElse (s.keyword?.getD "") then
        [found .elseNotUpperCase [] (anchor s.line) (tokenColumn s [.keyword])]
      else []
    | .block .. => []

def isSetupOrTeardown : StatementKind → Bool
  | .suiteSetup | .testSetup | .setup | .suiteTeardown | .testTeardown | .teardown => true
  | _ => false

def inNode (modern : Bool) (convention : String) (n : Node) : Except Breakdown (List Finding) :=
  match n with
  | .leaf s =>
    if isSetupOrTeardown s.kind then judge modern convention (s.name?.getD "") n
    else if s.kind = .keywordCall then judge modern convention (s.keyword?.getD "") n
    else .ok []
  | .block .keyword .. =>
    let name := n.name?.getD ""
    if name.isEmpty then .ok [found .keywordNameIsEmpty [] (anchor n.line) 1]
    else judge modern convention name n
  | .block .if_ _ body .. => .ok (inCondition body)
  | .block .. => .ok []

def check (modern : Bool) (vs : Values) (d : Document) : Except Breakdown (List Finding) :=
  gather (inNode modern (vs.text (RuleKey.wrongCaseInKeywordName.slot "convention"))) d.visited

end SuiteLint.Check.KeywordName
