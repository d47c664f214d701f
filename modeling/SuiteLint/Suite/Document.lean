import SuiteLint.Suite.Statement

/-! Documents: the sections of a suite file, the blocks in them, and the order in which all of
these are visited. -/
namespace SuiteLint

inductive BlockKind where
  | testCase | keyword | for_ | forLoop | if_
  deriving DecidableEq

/-- A statement, or a block of them with a header, the ELSE branch of an IF, and an END. -/
inductive Node where
  | leaf (statement : Statement)
  | block (kind : BlockKind) (header : Statement) (body : List Node) (orelse : Option Node)
      (close : Option Statement) (errors : List String)
  deriving Inhabited

inductive SectionKind where
  | settings | variableRows | testCases | keywords | comments
  deriving DecidableEq

structure Section where
  kind : SectionKind
  header : Option Statement
  body : List Node

/-- A file, with the name it was read from where that is known. -/
structure Document where
  source : Option String
  sections : List Section

namespace Node

mutual

/-- A node and the nodes below it in the order of visiting, but none below the blocks of a kind that
satisfies the test. -/
def visitedUntil (stop : BlockKind → Bool) : Node → List Node
  | .leaf s => [.leaf s]
  | .block kind header body orelse close errors =>
    .block kind header body orelse close errors ::
      if stop kind then []
      else .leaf header :: (visitedUntilAll stop body ++ visitedUntilBranch stop orelse ++
        close.toList.map .leaf)

def visitedUntilAll (stop : BlockKind → Bool) : List Node → List Node
  | [] => []
  | n :: ns => n.visitedUntil stop ++ visitedUntilAll stop ns

def visitedUntilBranch (stop : BlockKind → Bool) : Option Node → List Node
  | none => []
  | some n => n.visitedUntil stop

end

def visited (n : Node) : List Node := n.visitedUntil fun _ => false

def statement? : Node → Option Statement
  | .leaf s => some s
  | .block .. => none

def statements (n : Node) : List Statement := n.visited.filterMap statement?

def isStatement (kind : StatementKind) : Node → Bool
  | .leaf s => s.kind = kind
  | .block .. => false

def isBlockWith (p : BlockKind → Bool) : Node → Bool
  | .leaf _ => false
  | .block k .. => p k

def isBlock (kind : BlockKind) (n : Node) : Bool := n.isBlockWith (· = kind)

mutual

def branches : Node → List Node
  | .leaf s => [.leaf s]
  | .block kind header body orelse close errors =>
    .block kind header body orelse close errors :: branchesOf orelse

def branchesOf : Option Node → List Node
  | none => []
  | some n => n.branches

end

def header? : Node → Option Statement
  | .leaf _ => none
  | .block _ header .. => some header

def body : Node → List Node
  | .leaf _ => []
  | .block _ _ body .. => body

def orelse : Node → Option Node
  | .leaf _ => none
  | .block _ _ _ orelse .. => orelse

def close? : Node → Option Statement
  | .leaf _ => none
  | .block _ _ _ _ close _ => close

def errors : Node → List String
  | .leaf s => s.errors
  | .block _ _ _ _ _ errors => errors

def line (n : Node) : Int :=
  match n.statements with
  | s :: _ => s.line
  | [] => -1

def column (n : Node) : Int :=
  match n.statements with
  | s :: _ => s.column
  | [] => -1

def endLine (n : Node) : Int :=
  match n.statements.getLast? with
  | some s => s.endLine
  | none => -1

/-- The kind of token that a node is named for; of the blocks only an IF has one. -/
def mark? : Node → Option TokenKind
  | .leaf s => s.mark?
  | .block .if_ header .. => header.mark?
  | .block .. => none

def name? (n : Node) : Option String := n.header?.bind Statement.name?

end Node

namespace Section

/-- The nodes of a section in the order of visiting, but none below the blocks of a kind that
satisfies the test. -/
def visitedUntil (s : Section) (stop : BlockKind → Bool) : List Node :=
  s.header.toList.map .leaf ++ Node.visitedUntilAll stop s.body

def visited (s : Section) : List Node := s.visitedUntil fun _ => false

def statements (s : Section) : List Statement := s.visited.filterMap Node.statement?

def line (s : Section) : Int :=
  match s.statements with
  | st :: _ => st.line
  | [] => -1

def endLine (s : Section) : Int :=
  match s.statements.getLast? with
  | some st => st.endLine
  | none => -1

def outermost (s : Section) (p : BlockKind → Bool) : List Node :=
  (s.visitedUntil p).filter (·.isBlockWith p)

end Section

namespace Document

def visited (d : Document) : List Node := d.sections.flatMap Section.visited

def statements (d : Document) : List Statement := d.sections.flatMap Section.statements

def statementsOf (d : Document) (kind : StatementKind) : List Statement :=
  d.statements.filter (·.kind = kind)

def outermost (d : Document) (p : BlockKind → Bool) : List Node :=
  d.sections.flatMap (·.outermost p)

def blocksOf (d : Document) (kind : BlockKind) : List Node :=
  d.visited.filter (·.isBlock kind)

def line (d : Document) : Int :=
  match d.statements with
  | s :: _ => s.line
  | [] => -1

def endLine (d : Document) : Int :=
  match d.statements.getLast? with
  | some s => s.endLine
  | none => -1

end Document

end SuiteLint
