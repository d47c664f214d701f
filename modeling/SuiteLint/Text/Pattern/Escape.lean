import SuiteLint.Text.Pattern.Expr
import SuiteLint.Text.Pattern.Source

/-! Escapes and character sets in the text of a pattern. -/
namespace SuiteLint.Text.Pattern

def controlEscape (c : Char) : Option Nat :=
  if c = 'n' then some 10
  else if c = 't' then some 9
  else if c = 'r' then some 13
  else if c = 'f' then some 12
  else if c = 'v' then some 11
  else if c = 'a' then some 7
  else if c = '\\' then some 92
  else none

def classEscape (plain : Bool) (c : Char) : Option SetItem :=
  if c = 'd' then some (.cls false plain .digit)
  else if c = 'D' then some (.cls true plain .digit)
  else if c = 's' then some (.cls false plain .blank)
  else if c = 'S' then some (.cls true plain .blank)
  else if c = 'w' then some (.cls false plain .word)
  else if c = 'W' then some (.cls true plain .word)
  else none

def isHex (c : Char) : Bool :=
  c.isDigit || ('a' ≤ c && c ≤ 'f') || ('A' ≤ c && c ≤ 'F')

def isOctal (c : Char) : Bool := '0' ≤ c && c ≤ '7'

def hexValue (c : Char) : Nat := if c.isDigit then c.toNat - 48 else c.toLower.toNat - 87

def numberOf (base : Nat) (digits : List Char) : Nat :=
  digits.foldl (fun n c => base * n + hexValue c) 0

def hexEscape (letter : Char) (count : Nat) (s : Source) : Except PatternError (Nat × Source) := do
  let (digits, s) ← s.takeUpTo isHex count
  let written := '\\' :: letter :: digits
  if digits.length ≠ count then faultAt (.incompleteEscape written) (s.place - written.length)
  let n := numberOf 16 digits
  if 0x10FFFF < n then faultAt (.badEscape written) (s.place - written.length)
  return (n, s)

def namedEscape (s : Source) : Except PatternError (Nat × Source) := do
  let (opened, s) ← s.take? '\x7b'
  if !opened then faultAt (.missing "\x7b") s.place
  let (name, s) ← s.nameUntil '\x7d' "character name"
  faultAt (.unknownCharacter name) (s.place - (name.length + 4))

def codeEscape? (c : Char) (s : Source) : Option (Except PatternError (Nat × Source)) :=
  if c = 'x' then some (hexEscape c 2 s)
  else if c = 'u' then some (hexEscape c 4 s)
  else if c = 'U' then some (hexEscape c 8 s)
  else if c = 'N' then some (namedEscape s)
  else none

/-- An escape in a set; the backslash and the character after it have been taken. -/
def setEscape (plain : Bool) (c : Char) (s : Source) : Except PatternError (SetItem × Source) :=
  match controlEscape c, classEscape plain c, codeEscape? c s with
  | some n, _, _ => .ok (.char n, s)
  | _, some item, _ => .ok (item, s)
  | _, _, some found => found.map fun (n, rest) => (.char n, rest)
  | none, none, none =>
    if c = 'b' then .ok (.char 8, s)
    else if isOctal c then do
      let (digits, s) ← s.takeUpTo isOctal 2
      let written := '\\' :: c :: digits
      let n := numberOf 8 (c :: digits)
      if 255 < n then faultAt (.largeOctal written) (s.place - written.length)
      return (.char n, s)
    else if c.isAlphanum then faultAt (.badEscape ['\\', c]) (s.place - 2)
    else .ok (.char c.toNat, s)

def setMember (plain : Bool) (sign : List Char) (s : Source) :
    Except PatternError (SetItem × Source) :=
  match sign with
  | ['\\', c] => setEscape plain c s
  | c :: _ => .ok (.char c.toNat, s)
  | [] => .ok (.char 0, s)

/-- Reads the members of a set up to its closing bracket, which cannot be the first of them. Every
member takes a sign, so a bound above the number of signs is never used up. -/
def setItems (plain : Bool) (opened : Nat) : Nat → List SetItem → Source →
    Except PatternError (List SetItem × Source)
  | 0, items, s => .ok (items.reverse, s)
  | bound + 1, items, s => do
    let (sign, s) ← s.get
    match sign with
    | none => faultAt .unterminatedSet opened
    | some this =>
      if this = [']'] && !items.isEmpty then return (items.reverse, s)
      let (first, s) ← setMember plain this s
      let (spans, s) ← s.take? '-'
      if !spans then setItems plain opened bound (first :: items) s
      else
        let (sign, s) ← s.get
        match sign with
        | none => faultAt .unterminatedSet opened
        | some that =>
          if that = [']'] then return ((.char 45 :: first :: items).reverse, s)
          let (last, s) ← setMember plain that s
          let bad := faultAt (.badRange this that) (s.place - (this.length + 1 + that.length))
          match first, last with
          | .char a, .char b =>
            if b < a then bad else setItems plain opened bound (.span a b :: items) s
          | _, _ => bad

def single (folding : Folding) (negated : Bool) (code : Nat) : Expr :=
  let kept := if code < 65536 then code else (folding.fold (Char.ofNat code)).toNat
  .set ⟨negated, [.char kept], folding⟩

def setOf (folding : Folding) (negated : Bool) (items : List SetItem) : Expr :=
  match items.eraseDups with
  | [.char code] => single folding negated code
  | items => .set ⟨negated, items, folding⟩

end SuiteLint.Text.Pattern
