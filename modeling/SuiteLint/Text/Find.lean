/-! Parts of a text: where they stand, how they are cut out and put in. -/
namespace SuiteLint.Text

def tails : List Char → List (List Char)
  | [] => [[]]
  | c :: rest => (c :: rest) :: tails rest

def find (part : List Char) : List Char → Option Nat
  | [] => if part.isEmpty then some 0 else none
  | c :: rest => if part.isPrefixOf (c :: rest) then some 0 else (find part rest).map (· + 1)

def has (part s : List Char) : Bool := (find part s).isSome

def after? (part s : List Char) : Option (List Char) :=
  if part.isPrefixOf s then some (s.drop part.length) else none

def charAt? (s : List Char) (place : Int) : Option Char :=
  if 0 ≤ place then s[place.toNat]?
  else if (-place).toNat ≤ s.length then s[s.length - (-place).toNat]?
  else none

/-- Whether a text is the character after a place that is not the last one; none if there is no
such place. -/
def followedBy? (s : List Char) (place : Int) (next : List Char) : Option Bool :=
  if place < (s.length : Int) - 1 then (charAt? s (place + 1)).map fun c => next == [c]
  else some false

def splitAt (sep : Char) : List Char → List (List Char)
  | [] => [[]]
  | c :: rest =>
    if c = sep then [] :: splitAt sep rest
    else match splitAt sep rest with
      | [] => [[c]]
      | piece :: pieces => (c :: piece) :: pieces

def cutAt (sep : Char) : List Char → List Char × Option (List Char)
  | [] => ([], none)
  | c :: rest =>
    if c = sep then ([], some rest)
    else
      let (before, after) := cutAt sep rest
      (c :: before, after)

def join (sep : List Char) : List (List Char) → List Char
  | [] => []
  | [piece] => piece
  | piece :: pieces => piece ++ sep ++ join sep pieces

def replace (old new : List Char) : List Char → List Char
  | [] => []
  | c :: rest =>
    if !old.isEmpty && old.isPrefixOf (c :: rest) then
      new ++ replace old new (rest.drop (old.length - 1))
    else c :: replace old new rest
termination_by s => s.length
decreasing_by
  · simp only [List.length_drop, List.length_cons]; omega
  · simp only [List.length_cons]; omega

def without (c : Char) (s : List Char) : List Char := s.filter (· != c)

end SuiteLint.Text
