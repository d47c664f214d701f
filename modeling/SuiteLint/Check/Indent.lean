import SuiteLint.Check.Finding
import SuiteLint.Tally
import SuiteLint.Text.Tab

/-! Indentation: the rows of a block start in one column (1007, 1008). -/
namespace SuiteLint.Check.Indent

def leadingWidth (tokens : List Token) : Nat :=
  (tokens.takeWhile (·.kind = .separator)).foldr (fun t n => Text.width t.value + n) 0

def indentOf : Node → Nat
  | .leaf s => leadingWidth s.tokens
  | .block _ header .. => leadingWidth header.tokens

def isSetting (n : Node) : Bool :=
  match n.mark? with
  | some .arguments | some .documentation | some .setup | some .timeout | some .teardown
  | some .template | some .tags => true
  | _ => false

def isTemplated (n : Node) : Bool :=
  n.isBlock .testCase && n.body.any (·.mark? = some .template)

def commentColumn? (n : Node) : Option Int :=
  match n with
  | .leaf s => if s.kind = .comment then some (tokenColumn s [.comment]) else none
  | .block .. => none

def isCommentOrEmpty (n : Node) : Bool := n.mark? = some .comment || n.mark? = some .eol

/-- The comments and empty lines at the end of a body; all of it counts as filled if its last other
part is a block without a mark. -/
def tailLength (body : List Node) : Option Nat :=
  let tail := body.reverse.takeWhile isCommentOrEmpty
  match body.reverse.drop tail.length with
  | n :: _ => if n.mark?.isSome then some tail.length else none
  | [] => none

/-- Where a body ends: before the first comment in the first column of its tail, or else before its
last part. -/
def bodyEnd (body : List Node) : Nat :=
  match tailLength body with
  | some size =>
    let start := body.length - size
    match (body.drop start).findIdx? fun n => commentColumn? n = some 1 with
    | some place => start + place
    | none => body.length - 1
  | none => body.length - 1

def looseComments (nodes : List Node) : List Finding :=
  nodes.flatMap fun n =>
    match commentColumn? n with
    | some col => if col = 1 then [] else [found .unevenIndent [.string "over"] (anchor n.line) col]
    | none => []

/-- Reports the rows whose indentation is not the most common one, counting also the rows of
earlier branches; a row that stands alone is not judged. -/
def uneven (earlier : Tally Nat) (rows : List Node) : List Finding × Tally Nat :=
  let here := Tally.ofList (rows.map indentOf)
  let counts := if earlier.isEmpty then here else earlier.merge here
  if (earlier.isEmpty && rows.length < 2) || counts.length = 1 then ([], counts)
  else match counts.mostCommon? with
    | none => ([], counts)
    | some common =>
      ((rows.filter (indentOf · ≠ common)).map fun n =>
        found .unevenIndent [.string (if common < indentOf n then "over" else "under")]
          (anchor n.line) (indentOf n + 1), counts)

def judgedRows (n : Node) (stop : Nat) : List Node :=
  (n.body.take stop).filter fun child =>
    child.line ≠ n.line && !child.isStatement .emptyLine

/-- The rows of one branch. A bounded branch is closed by an end mark. -/
def inBranch (required : Int) (bounded : Bool) (earlier : Tally Nat) (n : Node) :
    List Finding × Tally Nat :=
  let stop := if bounded then n.body.length else bodyEnd n.body
  let rows := judgedRows n stop
  let shallow := rows.filter fun child => !isSetting child && decide ((indentOf child : Int) < required)
  let deep := rows.filter fun child => isSetting child || decide (required ≤ (indentOf child : Int))
  let templated := isTemplated n
  let plain := if templated then deep.filter (!isSetting ·) else deep
  let (odd, counts) := uneven earlier plain
  ((shallow.map fun child => found .badIndent [] (anchor child.line) 1) ++
    (if bounded then [] else looseComments (n.body.drop stop)) ++ odd ++
    (if templated then (uneven [] (deep.filter isSetting)).1 else []), counts)

def inBranches (required : Int) (bounded : Bool) (earlier : Tally Nat) : List Node → List Finding
  | [] => []
  | n :: ns =>
    let (here, counts) := inBranch required bounded earlier n
    here ++ inBranches required bounded counts ns

def inStructure (n : Node) : Except Breakdown (List Finding) :=
  match n.header?.map (·.tokens) with
  | some (_ :: t :: _) => .ok (inBranches (t.column + 1) n.close?.isSome [] n.branches)
  | _ => .error .absentItem

def isStructure (k : BlockKind) : Bool := k = .for_ || k = .forLoop || k = .if_

def inNode (n : Node) : Except Breakdown (List Finding) :=
  match n with
  | .leaf _ => .ok []
  | .block .testCase .. => .ok (inBranches 0 false [] n.branches)
  | .block .keyword .. => do
    let name ← requiredName n
    return if isCommentedOut name then [] else inBranches 0 false [] n.branches
  | .block .. => inStructure n

def indentedComments (body : List Node) : List Finding :=
  body.flatMap fun n =>
    match n with
    | .leaf s =>
      if s.kind = .comment && (s.tokens.head?.any (·.kind = .separator)) then
        [found .unevenIndent [.string "over"] (anchor s.line) (tokenColumn s [.comment])]
      else []
    | .block .. => []

def inSection (s : Section) : Except Breakdown (List Finding) := do
  let inside ← gather inNode (s.visitedUntil isStructure)
  return (if s.kind = .testCases || s.kind = .keywords then indentedComments s.body else []) ++ inside

def check (d : Document) : Except Breakdown (List Finding) := gather inSection d.sections

end SuiteLint.Check.Indent
