import SuiteLint.Text.Pattern.Expr

/-! How an expression is matched: the ways of going on are tried in order, and the first one that
leads to the end counts. -/
namespace SuiteLint.Text.Pattern

/-- A place in a text: what lies before it, nearest first, what lies after it, and what the groups
have matched on the way, the latest first. -/
structure Place where
  offset : Nat
  before : List Char
  after : List Char
  groups : List (Nat × List Char)
  deriving DecidableEq

abbrev Rest := Place → Option Place

namespace Place

def start (s : List Char) : Place := ⟨0, [], s, []⟩

def next? (p : Place) : Option Place :=
  match p.after with
  | c :: rest => some ⟨p.offset + 1, c :: p.before, rest, p.groups⟩
  | [] => none

def step? (s : CharSet) (p : Place) : Option Place :=
  match p.after with
  | c :: rest => if s.has c then some ⟨p.offset + 1, c :: p.before, rest, p.groups⟩ else none
  | [] => none

def back? : Nat → Place → Option Place
  | 0, p => some p
  | n + 1, p =>
    match p.before with
    | c :: rest => back? n ⟨p.offset - 1, rest, c :: p.after, p.groups⟩
    | [] => none

/-- The place after a text, up to folding. -/
def skip? (f : Folding) : List Char → Place → Option Place
  | [], p => some p
  | d :: text, p =>
    match p.after with
    | c :: rest =>
      if f.fold c = f.fold d then skip? f text ⟨p.offset + 1, c :: p.before, rest, p.groups⟩
      else none
    | [] => none

def isWordAt (plain : Bool) (c : Option Char) : Bool :=
  c.any fun c => if plain then CharClass.word.hasPlain c else CharClass.word.has c

/-- Whether a place is as an anchor asks. In an empty text there is no edge of a word, nor any other
place. -/
def fits (p : Place) : Anchor → Bool
  | .textStart => p.before.isEmpty
  | .lineStart => p.before.head?.all (· == '\n')
  | .textEnd => p.after.isEmpty
  | .lineEnd => p.after.head?.all (· == '\n')
  | .lastLineEnd => p.after.isEmpty || p.after == ['\n']
  | .wordEdge negated plain =>
    !(p.before.isEmpty && p.after.isEmpty) &&
      ((isWordAt plain p.before.head? != isWordAt plain p.after.head?) != negated)

end Place

def orElse (first : Option Place) (second : Unit → Option Place) : Option Place :=
  match first with
  | some p => some p
  | none => second ()

def rounds (round : Rest → Rest) : Nat → Rest → Rest
  | 0, rest, p => rest p
  | n + 1, rest, p => round (rounds round n rest) p

/-- Up to `room` further rounds, as many or as few as possible first. A round that starts where the
one before it started is not begun. Every other round reads something, so a bound above the length
of what follows is never used up. -/
def moreRounds (eager : Bool) (round : Rest → Rest) (rest : Rest) :
    Nat → Option Nat → Option Nat → Rest
  | 0, _, _, p => rest p
  | bound + 1, room, last, p =>
    if room = some 0 || last = some p.offset then rest p
    else
      let more (_ : Unit) :=
        round (moreRounds eager round rest bound (room.map (· - 1)) (some p.offset)) p
      if eager then orElse (more ()) fun _ => rest p else orElse (rest p) more

def settledRounds (round : Rest → Rest) : Nat → Option Nat → Option Nat → Place → Place
  | 0, _, _, p => p
  | bound + 1, room, last, p =>
    if room = some 0 || last = some p.offset then p
    else match round some p with
      | some q => settledRounds round bound (room.map (· - 1)) (some p.offset) q
      | none => p

def settled (round : Rest → Rest) : Nat → Place → Option Place
  | 0, p => some p
  | n + 1, p => (round some p).bind (settled round n)

/-- The places after one character of a set, after two, and so on, the last one first; `found` are
those that were passed before. -/
def stretch (s : CharSet) : Nat → List Place → Place → List Place
  | 0, found, _ => found
  | bound + 1, found, p =>
    match p.step? s with
    | some q => stretch s bound (q :: found) q
    | none => found

def firstOf (rest : Rest) : List Place → Option Place
  | [] => none
  | p :: ps => orElse (rest p) fun _ => firstOf rest ps

/-- Characters of a set in a row. -/
def setTimes (greed : Greed) (s : CharSet) (least : Nat) (most : Option Nat) (rest : Rest) : Rest :=
  fun p =>
    let bound := match most with
      | some n => min n p.after.length
      | none => p.after.length
    let places := stretch s bound [p] p
    if places.length ≤ least then none
    else match greed with
      | .most => firstOf rest (places.take (places.length - least))
      | .least => firstOf rest (places.take (places.length - least)).reverse
      | .fixed => places.head?.bind rest

def Expr.run : Expr → Rest → Rest
  | .empty, rest => rest
  | .set s, rest => fun p => (p.step? s).bind rest
  | .seq a b, rest => a.run (b.run rest)
  | .alt a b, rest => fun p => orElse (a.run rest p) fun _ => b.run rest p
  | .times greed (.set s) least most, rest => setTimes greed s least most rest
  | .times .fixed e least most, rest => fun p =>
    (settled e.run least p).bind fun q =>
      rest (settledRounds e.run (q.after.length + 2) (most.map (· - least)) none q)
  | .times greed e least most, rest =>
    rounds e.run least fun p =>
      moreRounds (greed = .most) e.run rest (p.after.length + 2) (most.map (· - least)) none p
  | .anchor a, rest => fun p => if p.fits a then rest p else none
  | .group n e, rest => fun p =>
    e.run (fun q => rest { q with groups := (n, p.after.take (q.offset - p.offset)) :: q.groups }) p
  | .again n folding, rest => fun p =>
    (p.groups.lookup n).bind fun text => (p.skip? folding text).bind rest
  | .given n yes no, rest => fun p =>
    if (p.groups.lookup n).isSome then yes.run rest p else no.run rest p
  | .ahead false e, rest => fun p =>
    (e.run some p).bind fun q => rest { p with groups := q.groups }
  | .ahead true e, rest => fun p => if (e.run some p).isSome then none else rest p
  | .behind false width e, rest => fun p =>
    ((p.back? width).bind (e.run some)).bind fun q => rest { p with groups := q.groups }
  | .behind true width e, rest => fun p =>
    if ((p.back? width).bind (e.run some)).isSome then none else rest p
  | .first e, rest => fun p => (e.run some p).bind rest

def Expr.foundFrom (e : Expr) : Nat → List Char → List Char → Bool
  | offset, before, [] => (e.run some ⟨offset, before, [], []⟩).isSome
  | offset, before, c :: rest =>
    (e.run some ⟨offset, before, c :: rest, []⟩).isSome ||
      e.foundFrom (offset + 1) (c :: before) rest

end SuiteLint.Text.Pattern
