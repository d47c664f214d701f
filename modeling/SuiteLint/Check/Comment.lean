import SuiteLint.Check.Finding

/-! Comments: leftovers such as TODO in them (0701), and the blank after their sign (0702). -/
namespace SuiteLint.Check.Comment

def leftover (word shown : String) (t : Token) : List Finding :=
  match Text.find word.toList (Text.lower t.value.toList) with
  | some place => [found .todoInComment [.string shown] t.line (t.column + 1 + place)]
  | none => []

def lacksSpace (value : List Char) : Bool :=
  match value with
  | '#' :: c :: _ => c != ' '
  | _ => false

def inToken (t : Token) : List Finding :=
  leftover "todo" "TODO" t ++ leftover "fixme" "FIXME" t ++
    if lacksSpace t.value.toList then [found .missingSpaceAfterComment [] t.line (t.column + 1)]
    else []

def isSearched : StatementKind → Bool
  | .comment | .keywordCall | .returnSetting | .documentation | .sectionHeader | .tags | .setup
  | .timeout | .template | .arguments | .variableRow | .metadata | .forceTags | .defaultTags
  | .ifHeader | .elseIfHeader | .elseHeader | .forHeader | .forLoopHeader | .testSetup
  | .testTeardown | .suiteSetup | .suiteTeardown | .testTemplate | .testTimeout => true
  | _ => false

def inStatement (s : Statement) : List Finding :=
  if isSearched s.kind then (s.tokensOf .comment).flatMap inToken else []

def inName (n : Node) : List Finding :=
  match n.name? with
  | some name =>
    if isCommentedOut name then
      let place := (name.toList.takeWhile (· != '#')).length
      [found .invalidComment [] (anchor n.line) (n.column + place + 1)]
    else []
  | none => []

def inNode (modern : Bool) : Node → List Finding
  | .leaf s => inStatement s
  | n =>
    if !modern && n.isBlockWith (fun k => k = .testCase || k = .keyword) then inName n else []

def check (modern : Bool) (d : Document) : List Finding := d.visited.flatMap (inNode modern)

end SuiteLint.Check.Comment
