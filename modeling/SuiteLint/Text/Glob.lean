import SuiteLint.Text.Find

/-! Glob patterns: `*` stands for any text, `?` for any character, brackets for one of a set. -/
namespace SuiteLint.Text

inductive Glob.Piece where
  | any
  | one
  | char (c : Char)
  | oneOf (negated : Bool) (spans : List (Char × Char))
  deriving DecidableEq

abbrev Glob := List Glob.Piece

namespace Glob

/-- The body of a bracket set and what follows its closing bracket. A closing bracket that stands
first, also after an exclamation mark, belongs to the body. -/
def bracketBody (s : List Char) : Option (List Char × List Char) :=
  let (lead, tail) := match s with
    | '!' :: ']' :: rest => (['!', ']'], rest)
    | '!' :: rest => (['!'], rest)
    | ']' :: rest => ([']'], rest)
    | rest => ([], rest)
  match cutAt ']' tail with
  | (body, some rest) => some (lead ++ body, rest)
  | (_, none) => none

/-- The parts of a set between the hyphens that make spans. The first `skip` characters hold no such
hyphen, and after one the next two hold none. -/
def setParts (skip : Nat) (body : List Char) : List (List Char) :=
  match find ['-'] (body.drop skip) with
  | none => [body]
  | some k =>
    let rest := body.drop (skip + k + 1)
    if rest.isEmpty then [body.take (skip + k) ++ ['-']]
    else if rest.length < body.length then body.take (skip + k) :: setParts 2 rest
    else [body]
termination_by body.length

def dropBackward : List (List Char) → List (List Char)
  | [] => []
  | part :: parts =>
    match dropBackward parts with
    | [] => [part]
    | next :: more =>
      match part.getLast?, next.head? with
      | some a, some b => if b < a then (part.dropLast ++ next.tail) :: more else part :: next :: more
      | _, _ => part :: next :: more

/-- The spans of a list of parts: from the last character of each to the first of the next, and the
other characters by themselves. -/
def spansOf (left : List Char) : List (List Char) → List (Char × Char)
  | [] => left.map fun c => (c, c)
  | part :: parts =>
    let singles := left.dropLast.map fun c => (c, c)
    match left.getLast?, part.head? with
    | some a, some b => singles ++ (a, b) :: spansOf part.tail parts
    | _, _ => singles ++ spansOf part parts

def bracketSet (body : List Char) : Piece :=
  let parts :=
    if body.contains '-' then
      dropBackward (setParts (if body.head? = some '!' then 2 else 1) body)
    else [body]
  match parts with
  | ('!' :: part) :: more => .oneOf true (spansOf part more)
  | part :: more => .oneOf false (spansOf part more)
  | [] => .oneOf false []

/-- Reads a glob of at most `fuel` characters. A bracket that is never closed stands for itself. -/
def parseWithin : Nat → List Char → Glob
  | _, [] => []
  | 0, _ => []
  | fuel + 1, c :: rest =>
    match c with
    | '*' => .any :: parseWithin fuel rest
    | '?' => .one :: parseWithin fuel rest
    | '[' =>
      match bracketBody rest with
      | some (body, after) => bracketSet body :: parseWithin fuel after
      | none => .char '[' :: parseWithin fuel rest
    | c => .char c :: parseWithin fuel rest

def parse (s : List Char) : Glob := parseWithin s.length s

def Piece.stands (c : Char) : Piece → Bool
  | .any => false
  | .one => true
  | .char d => c == d
  | .oneOf negated spans => (spans.any fun s => s.1 ≤ c && c ≤ s.2) != negated

def orLater : List Bool → List Bool
  | [] => []
  | b :: bs =>
    match orLater bs with
    | [] => [b]
    | later :: more => (b || later) :: later :: more

/-- For each tail of the text, the whole text first, whether it starts with a character for which the
piece stands and is then as the flags say of the next tail. -/
def afterPiece (piece : Piece) : List Char → List Bool → List Bool
  | c :: rest, _ :: b :: bs => (piece.stands c && b) :: afterPiece piece rest (b :: bs)
  | _, _ => [false]

def acceptedTails (s : List Char) : Glob → List Bool
  | [] => (tails s).map List.isEmpty
  | .any :: pieces => orLater (acceptedTails s pieces)
  | piece :: pieces => afterPiece piece s (acceptedTails s pieces)

def accepts (g : Glob) (s : List Char) : Bool := (acceptedTails s g).headD false

end Glob

end SuiteLint.Text
