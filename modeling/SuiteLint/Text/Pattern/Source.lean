import SuiteLint.Text.Pattern.Fault

/-! The text of a pattern while it is read, sign by sign. -/
namespace SuiteLint.Text.Pattern

/-- Cuts a text into signs: a character, or a backslash with the character after it. Only a backslash
at the very end is a sign by itself. -/
def signs : List Char → List (List Char)
  | '\\' :: c :: rest => ['\\', c] :: signs rest
  | c :: rest => [c] :: signs rest
  | [] => []

/-- What is left of a text, and where it starts. -/
structure Source where
  place : Nat
  signs : List (List Char)
  deriving DecidableEq

def faultAt {α : Type} (f : PatternFault) (place : Nat) : Except PatternError α :=
  .error (.fault f (some place))

namespace Source

def checked (s : Source) : Except PatternError Source :=
  if s.signs.head? = some ['\\'] then faultAt .danglingEscape s.place else .ok s

def ofText (text : List Char) : Except PatternError Source :=
  checked ⟨0, Pattern.signs text⟩

def next (s : Source) : Except PatternError Source :=
  match s.signs with
  | [] => .ok s
  | sign :: rest => checked ⟨s.place + sign.length, rest⟩

def get (s : Source) : Except PatternError (Option (List Char) × Source) := do
  return (s.signs.head?, ← s.next)

def sees (s : Source) (c : Char) : Bool := s.signs.head? = some [c]

def take? (s : Source) (c : Char) : Except PatternError (Bool × Source) := do
  if s.sees c then return (true, ← s.next) else return (false, s)

def takeUpTo (allowed : Char → Bool) : Nat → Source → Except PatternError (List Char × Source)
  | 0, s => .ok ([], s)
  | n + 1, s =>
    match s.signs with
    | [c] :: _ =>
      if allowed c then do
        let (more, rest) ← takeUpTo allowed n (← s.next)
        return (c :: more, rest)
      else .ok ([], s)
    | _ => .ok ([], s)

def digits (s : Source) : Except PatternError (List Char × Source) :=
  s.takeUpTo Char.isDigit s.signs.length

/-- Takes a name up to the character that ends it, which is passed over. Every sign is looked at once,
so a bound above their number is never used up. -/
def name (stop : Char) (thing : String) :
    Nat → List Char → Source → Except PatternError (List Char × Source)
  | 0, found, s => .ok (found, s)
  | bound + 1, found, s => do
    let (sign, rest) ← s.get
    match sign with
    | none =>
      if found.isEmpty then faultAt (.missing thing) rest.place
      else faultAt (.missing (stop.toString ++ ", unterminated name")) (rest.place - found.length)
    | some sign =>
      if sign = [stop] then
        if found.isEmpty then faultAt (.missing thing) (rest.place - 1) else return (found, rest)
      else name stop thing bound (found ++ sign) rest

def nameUntil (s : Source) (stop : Char) (thing : String) :
    Except PatternError (List Char × Source) :=
  name stop thing (s.signs.length + 1) [] s

/-- Passes over signs up to the first one that is the given character, which is passed over too; tells
whether there was one. -/
def skipPast (stop : Char) : Nat → Source → Except PatternError (Bool × Source)
  | 0, s => .ok (false, s)
  | bound + 1, s => do
    let (sign, rest) ← s.get
    match sign with
    | none => return (false, rest)
    | some sign => if sign = [stop] then return (true, rest) else skipPast stop bound rest

end Source

end SuiteLint.Text.Pattern
