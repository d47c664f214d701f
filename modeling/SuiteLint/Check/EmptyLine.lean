import SuiteLint.Check.Finding

/-! Empty lines between sections, test cases and keywords, and inside them
(1003 to 1005, 1009, 1012, 1013). -/
namespace SuiteLint.Check.EmptyLine

def isEmptyLine (n : Node) : Bool := n.isStatement .emptyLine

/-- Empty lines that were just read, and the last empty line so far. -/
structure Run where
  count : Nat
  last : Option Node

/-- Reads a body and reports long runs of empty lines before other parts. Leading empty lines count
only if `judged`. -/
def runsFrom (limit : Int) (judged : Bool) (r : Run) : List Node → List Finding × Nat
  | [] => ([], r.count)
  | n :: ns =>
    if isEmptyLine n then
      runsFrom limit judged (if judged then ⟨r.count + 1, some n⟩ else r) ns
    else
      let (more, trailing) := runsFrom limit true ⟨0, r.last⟩ ns
      ((if limit < r.count then
          [found .consecutiveEmptyLines [.integer r.count, .integer limit]
            (match r.last with
              | some e => anchor e.line
              | none => 1) 1]
        else []) ++ more, trailing)

/-- The long runs of empty lines in a body, and the number of empty lines at its end. -/
def runs (vs : Values) (judged : Bool) (body : List Node) : List Finding × Nat :=
  runsFrom (vs.integer (RuleKey.consecutiveEmptyLines.slot "empty_lines")) judged ⟨0, none⟩ body

def inStatement (afterEnd : Bool) : List Token → List Finding
  | [] => []
  | t :: ts =>
    if t.kind = .eol then
      (if afterEnd then [found .emptyLinesInStatement [] (anchor t.line) 1] else []) ++
        inStatement true ts
    else inStatement false ts

/-- The definitions of one kind in a section: runs of empty lines inside them, and empty lines
between them unless any number is allowed. -/
def betweenDefinitions (vs : Values) (kind : BlockKind) (rule : RuleKey) (allowed : Int) :
    List Node → List Finding
  | [] => []
  | n :: ns =>
    (if n.isBlock kind then
        let (inside, trailing) := runs vs true n.body
        inside ++
          if allowed ≠ trailing ∧ allowed ≠ -1 ∧ !ns.isEmpty then
            [found rule [.integer trailing, .integer allowed] n.endLine 1]
          else []
      else []) ++ betweenDefinitions vs kind rule allowed ns

def inSection (vs : Values) (templated : Bool) (s : Section) : List Finding :=
  (match s.kind with
    | .settings | .variableRows => (runs vs false s.body).1
    | .testCases =>
      betweenDefinitions vs .testCase .emptyLinesBetweenTestCases
        (if templated then -1
          else vs.integer (RuleKey.emptyLinesBetweenTestCases.slot "empty_lines")) s.body
    | .keywords =>
      betweenDefinitions vs .keyword .emptyLinesBetweenKeywords
        (vs.integer (RuleKey.emptyLinesBetweenKeywords.slot "empty_lines")) s.body
    | .comments => []) ++ s.statements.flatMap fun st => inStatement false st.tokens

def trailing : List Node → Nat
  | [] => 0
  | n :: ns =>
    if isEmptyLine n then trailing ns + 1
    else if n.isStatement .comment then trailing ns
    else if n.isBlockWith fun k => k = .keyword || k = .testCase then
      (n.body.reverse.takeWhile isEmptyLine).length
    else 0

def afterSection (limit : Int) (s : Section) : List Finding :=
  let count : Int := trailing s.body.reverse
  if !s.header.any (!·.tokens.isEmpty) || count = limit then []
  else [found .emptyLinesBetweenSections [.integer count, .integer limit] s.endLine 1]

def afterHeader (limit : Int) (s : Section) : Except Breakdown (List Finding) :=
  let leading := s.body.takeWhile isEmptyLine
  let count : Int := leading.length
  if s.body.all isEmptyLine || count ≤ limit then .ok []
  else match leading.getLast? with
    | some e => .ok [found .emptyLineAfterSection [.integer count, .integer limit] (anchor e.line) 1]
    | none => .error .absentItem

def check (vs : Values) (templated : Bool) (d : Document) : Except Breakdown (List Finding) := do
  let headers ← gather
    (afterHeader (vs.integer (RuleKey.emptyLineAfterSection.slot "empty_lines"))) d.sections
  let between := d.sections.dropLast.flatMap
    (afterSection (vs.integer (RuleKey.emptyLinesBetweenSections.slot "empty_lines")))
  return headers ++ between ++ d.sections.flatMap (inSection vs templated)

end SuiteLint.Check.EmptyLine
