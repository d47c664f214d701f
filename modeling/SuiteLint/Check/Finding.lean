import SuiteLint.RuleKey
import SuiteLint.Suite.Document

/-! What a check finds, and the ways in which it can fail. -/
namespace SuiteLint

structure Finding where
  rule : RuleKey
  args : List Datum
  line : Int
  col : Int
  /-- Further lines on which a comment can switch the issue off. -/
  extraLines : List Int

/-- Why a check cannot be carried through on a document that no reader of suite files makes. -/
inductive Breakdown where
  /-- A node lacks a part that is asked for. -/
  | absentPart
  /-- A list of tokens or nodes is shorter than is asked for. -/
  | absentItem
  /-- A name is measured that does not exist. -/
  | absentName
  /-- A documentation statement has no lines. -/
  | noLines
  deriving DecidableEq

namespace Breakdown

def message : Breakdown → String
  | noLines => "not enough values to unpack (expected at least 1, got 0)"
  | _ => ""

end Breakdown

def anchor (line : Int) : Int := if -1 < line then line else 1

def found (rule : RuleKey) (args : List Datum) (line col : Int) : Finding :=
  ⟨rule, args, line, col, []⟩

def nameDatum : Option String → Datum
  | some s => .string s
  | none => .null

def tokenColumn (s : Statement) (kinds : List TokenKind) : Int :=
  match s.token? kinds with
  | some t => t.column + 1
  | none => 1

def firstData (s : Statement) : Except Breakdown Token :=
  match s.dataTokens with
  | t :: _ => .ok t
  | [] => .error .absentItem

def gather {α : Type} (check : α → Except Breakdown (List Finding)) :
    List α → Except Breakdown (List Finding)
  | [] => .ok []
  | x :: xs => do
    let first ← check x
    let more ← gather check xs
    return first ++ more

def isCommentedOut (name : String) : Bool :=
  match Text.trimLeft name.toList with
  | '#' :: _ => true
  | _ => false

def requiredName (n : Node) : Except Breakdown String :=
  match n.name? with
  | some name => .ok name
  | none => .error .absentPart

def isFaulty (modern : Bool) (s : Statement) : Bool :=
  if modern then !s.errors.isEmpty
  else match s.errors with
    | e :: _ => !e.isEmpty
    | [] => false

end SuiteLint
