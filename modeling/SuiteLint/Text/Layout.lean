import SuiteLint.Text.Digit
import SuiteLint.Text.Numeral

/-! Layouts: how a text or a number is written in a field of a template. -/
namespace SuiteLint.Text

inductive LayoutError where
  | malformed (spec : List Char) (type : String)
  | longNumber | missingPrecision | bothSeparators
  | separator (sep letter : Char)
  | unknownLetter (letter : Char) (type : String)
  | textSign | textBlank | textZero | textAlternate | textAlign
  | integerPrecision | integerZero | charSign | charAlternate | longPrecision
  /-- A number beyond those that can be written so. -/
  | outOfRange
  deriving DecidableEq

namespace LayoutError

def showLetter (c : Char) : String :=
  if 32 < c.toNat && c.toNat < 128 then c.toString
  else "\\x" ++ String.ofList (Nat.toDigits 16 c.toNat)

def message : LayoutError → String
  | malformed spec type =>
    "Invalid format specifier '" ++ String.ofList spec ++ "' for object of type '" ++ type ++ "'"
  | longNumber => "Too many decimal digits in format string"
  | missingPrecision => "Format specifier missing precision"
  | bothSeparators => "Cannot specify both ',' and '_'."
  | separator sep letter =>
    "Cannot specify '" ++ sep.toString ++ "' with '" ++ showLetter letter ++ "'."
  | unknownLetter letter type =>
    "Unknown format code '" ++ showLetter letter ++ "' for object of type '" ++ type ++ "'"
  | textSign => "Sign not allowed in string format specifier"
  | textBlank => "Space not allowed in string format specifier"
  | textZero => "Negative zero coercion (z) not allowed in string format specifier"
  | textAlternate => "Alternate form (#) not allowed in string format specifier"
  | textAlign => "'=' alignment not allowed in string format specifier"
  | integerPrecision => "Precision not allowed in integer format specifier"
  | integerZero => "Negative zero coercion (z) not allowed in integer format specifier"
  | charSign => "Sign not allowed with integer format specifier 'c'"
  | charAlternate => "Alternate form (#) not allowed with integer format specifier 'c'"
  | longPrecision => "precision too big"
  | outOfRange => "number out of range"

end LayoutError

inductive Align where
  | left | right | center | afterSign
  deriving DecidableEq

def Align.ofChar? (c : Char) : Option Align :=
  if c = '<' then some .left
  else if c = '>' then some .right
  else if c = '^' then some .center
  else if c = '=' then some .afterSign
  else none

structure Layout where
  fill : Char
  align : Align
  sign : Option Char
  dropsZeroSign : Bool
  alternate : Bool
  width : Nat
  separator : Option Char
  precision : Option Nat
  letter : Char
  deriving DecidableEq

namespace Layout

def accept (test : Char → Bool) : List Char → Option Char × List Char
  | c :: rest => if test c then (some c, rest) else (none, c :: rest)
  | [] => (none, [])

def number? (s : List Char) : Except LayoutError (Option Nat × List Char) :=
  let digits := s.takeWhile isDecimal
  let n := digits.foldl (fun n c => 10 * n + (digitValue c).getD 0) 0
  if digits.isEmpty then .ok (none, s)
  else if Nat.pow 2 63 ≤ n then .error .longNumber
  else .ok (some n, s.dropWhile isDecimal)

/-- The filling and the side, if they are given. -/
def filling (s : List Char) : Option Char × Option Align × List Char :=
  match s with
  | f :: a :: rest =>
    match Align.ofChar? a, Align.ofChar? f with
    | some side, _ => (some f, some side, rest)
    | none, some side => (none, some side, a :: rest)
    | none, none => (none, none, f :: a :: rest)
  | [a] =>
    match Align.ofChar? a with
    | some side => (none, some side, [])
    | none => (none, none, [a])
  | [] => (none, none, [])

def separator? (s : List Char) : Except LayoutError (Option Char × List Char) :=
  let (comma, s) := accept (· == ',') s
  let (low, s) := accept (· == '_') s
  if low.isSome && (comma.isSome || s.head? = some ',') then .error .bothSeparators
  else .ok (comma.or low, s)

def precision? (s : List Char) : Except LayoutError (Option Nat × List Char) :=
  match s with
  | '.' :: rest => do
    let (n, rest) ← number? rest
    if n.isNone then .error .missingPrecision
    return (n, rest)
  | _ => .ok (none, s)

def groups (sep letter : Char) : Bool :=
  ['d', 'e', 'f', 'g', 'E', 'G', '%', 'F'].contains letter ||
    (sep == '_' && ['b', 'o', 'x', 'X'].contains letter)

/-- Reads a layout. What it is for gives the side and the letter if the layout does not. -/
def parse (type : String) (side : Align) (letter : Char) (spec : List Char) :
    Except LayoutError Layout := do
  let (fill, align, s) := filling spec
  let (sign, s) := accept (fun c => c == ' ' || c == '+' || c == '-') s
  let (zero, s) := accept (· == 'z') s
  let (alternate, s) := accept (· == '#') s
  let (zeros, s) := if fill.isNone then accept (· == '0') s else (none, s)
  let (width, s) ← number? s
  let (sep, s) ← separator? s
  let (precision, s) ← precision? s
  let letter ← match s with
    | [] => .ok letter
    | [c] => .ok c
    | _ => .error (.malformed spec type)
  match sep with
  | some c => if !groups c letter then .error (.separator c letter)
  | none => pure ()
  let natural := if zeros.isSome && side = .right then .afterSign else side
  return ⟨(fill.or zeros).getD ' ', align.getD natural, sign, zero.isSome, alternate.isSome,
    width.getD 0, sep, precision, letter⟩

/-- Fills up to the width; `front` stays before the filling of numbers. -/
def pad (l : Layout) (front body : List Char) : List Char :=
  let missing := l.width - (front.length + body.length)
  match l.align with
  | .left => front ++ body ++ List.replicate missing l.fill
  | .right => List.replicate missing l.fill ++ front ++ body
  | .center =>
    List.replicate (missing / 2) l.fill ++ front ++ body ++
      List.replicate (missing - missing / 2) l.fill
  | .afterSign => front ++ List.replicate missing l.fill ++ body

/-- Writes a text, cut to the precision. -/
def writeText (spec s : List Char) : Except LayoutError (List Char) := do
  let l ← parse "str" .left 's' spec
  if l.letter ≠ 's' then .error (.unknownLetter l.letter "str")
  if l.sign = some ' ' then .error .textBlank
  if l.sign.isSome then .error .textSign
  if l.dropsZeroSign then .error .textZero
  if l.alternate then .error .textAlternate
  if l.align = .afterSign then .error .textAlign
  return l.pad [] (match l.precision with
    | some n => s.take n
    | none => s)

/-- Puts a sign between groups of digits, from the last digit on, and zeros in front up to a least
length. The digits come last first. Every round but the last takes a group, so a bound above the
length is never used up. -/
def grouped (sep : Char) (size : Nat) : Nat → List Char → Nat → List Char
  | 0, digits, _ => digits.reverse
  | bound + 1, digits, least =>
    let count := min size (max (max digits.length least) 1)
    let group := digits.take count
    let group := (group ++ List.replicate (count - group.length) '0').reverse
    let rest := digits.drop count
    if rest.isEmpty && least ≤ count then group
    else grouped sep size bound rest (least - count - 1) ++ sep :: group

def writeNumber (l : Layout) (negative : Bool) (front digits rest : List Char) : List Char :=
  let sign := if negative then ['-'] else (l.sign.filter (· != '-')).toList
  let front := sign ++ front
  match l.separator with
  | none => l.pad front (digits ++ rest)
  | some sep =>
    let least := if l.fill == '0' && l.align = .afterSign then l.width - (front.length + rest.length)
      else 0
    let size := if ['b', 'o', 'x', 'X'].contains l.letter then 4 else 3
    l.pad front (grouped sep size (digits.length + least + 1) digits.reverse least ++ rest)

def radix? (c : Char) : Option Nat :=
  if c = 'b' then some 2
  else if c = 'o' then some 8
  else if c = 'x' || c = 'X' then some 16
  else if c = 'd' || c = 'n' then some 10
  else none

def writeDigits (l : Layout) (radix : Nat) (n : Int) : Except LayoutError (List Char) := do
  if l.precision.isSome then .error .integerPrecision
  if l.dropsZeroSign then .error .integerZero
  let digits := radixDigits radix n.natAbs
  let digits := if l.letter = 'X' then digits.map Char.toUpper else digits
  let front := if l.alternate && radix ≠ 10 then ['0', l.letter] else []
  return l.writeNumber (n < 0) front digits []

def writeChar (l : Layout) (n : Int) : Except LayoutError (List Char) := do
  if l.precision.isSome then .error .integerPrecision
  if l.dropsZeroSign then .error .integerZero
  if l.sign.isSome then .error .charSign
  if l.alternate then .error .charAlternate
  if n < 0 || 0x110000 ≤ n then .error .outOfRange
  return l.pad [] [Char.ofNat n.toNat]

def writeReal (l : Layout) (form : RealForm) (n : Int) (tail : List Char) :
    Except LayoutError (List Char) :=
  match nearestReal n.natAbs with
  | none => .error .outOfRange
  | some m =>
    if l.precision.any (Nat.pow 2 31 ≤ ·) then .error .longPrecision
    else
      let m := if tail.isEmpty then m else (nearestReal (m * 100)).getD 0
      let mark := if l.letter.isUpper then 'E' else 'e'
      let (digits, rest) := form.write mark l.alternate (l.precision.getD 6) m
      .ok (l.writeNumber (n < 0) [] digits (rest ++ tail))

def writeInteger (spec : List Char) (n : Int) : Except LayoutError (List Char) := do
  let l ← parse "int" .right 'd' spec
  if l.letter = 'c' then l.writeChar n
  else if l.letter = '%' then l.writeReal .fixed n ['%']
  else match radix? l.letter, RealForm.ofLetter? l.letter with
    | some radix, _ => l.writeDigits radix n
    | none, some form => l.writeReal form n []
    | none, none => .error (.unknownLetter l.letter "int")

end Layout

end SuiteLint.Text
