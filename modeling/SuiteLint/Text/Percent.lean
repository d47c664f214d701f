import SuiteLint.Datum
import SuiteLint.Text.Numeral

/-! Templates with places marked by a percent sign. -/
namespace SuiteLint.Text

inductive PercentError where
  | tooFew | tooMany | named | notAWidth | notACharacter
  | notANumber (letter : Char) (type : String)
  | notAnInteger (letter : Char) (type : String)
  | notReal (type : String)
  | incomplete | wideField | longField
  | unsupported (letter : Char) (index : Nat)
  /-- A number beyond those that can stand at its place. -/
  | outOfRange
  deriving DecidableEq

namespace PercentError

def message : PercentError → String
  | tooFew => "not enough arguments for format string"
  | tooMany => "not all arguments converted during string formatting"
  | named => "format requires a mapping"
  | notAWidth => "* wants int"
  | notACharacter => "%c requires int or char"
  | notANumber letter type =>
    "%" ++ letter.toString ++ " format: a real number is required, not " ++ type
  | notAnInteger letter type =>
    "%" ++ letter.toString ++ " format: an integer is required, not " ++ type
  | notReal type => "must be real number, not " ++ type
  | incomplete => "incomplete format"
  | wideField => "width too big"
  | longField => "precision too big"
  | unsupported letter index =>
    let shown := if 31 ≤ letter.toNat && letter.toNat ≤ 126 then letter else '?'
    "unsupported format character '" ++ shown.toString ++ "' (0x" ++
      String.ofList (Nat.toDigits 16 letter.toNat) ++ ") at index " ++ toString index
  | outOfRange => "number out of range"

def isMisuse : PercentError → Bool
  | tooFew | tooMany | named | notAWidth | notACharacter | notANumber .. | notAnInteger ..
  | notReal _ => true
  | incomplete | wideField | longField | unsupported .. | outOfRange => false

end PercentError

structure PercentLayout where
  marks : List Char
  width : Nat
  precision : Option Nat

namespace PercentLayout

def has (l : PercentLayout) (mark : Char) : Bool := l.marks.contains mark

def pad (l : PercentLayout) (s : List Char) : List Char :=
  let missing := List.replicate (l.width - s.length) ' '
  if l.has '-' then s ++ missing else missing ++ s

def padNumber (l : PercentLayout) (negative : Bool) (front body : List Char) : List Char :=
  let sign := if negative then ['-'] else if l.has '+' then ['+'] else if l.has ' ' then [' '] else []
  let front := sign ++ front
  if l.has '0' && !l.has '-' then
    front ++ List.replicate (l.width - (front.length + body.length)) '0' ++ body
  else l.pad (front ++ body)

def writeText (l : PercentLayout) (s : List Char) : List Char :=
  l.pad (match l.precision with
    | some n => s.take n
    | none => s)

def writeInteger (l : PercentLayout) (letter : Char) (n : Int) : List Char :=
  let digits :=
    if letter = 'o' then radixDigits 8 n.natAbs
    else if letter = 'x' then radixDigits 16 n.natAbs
    else if letter = 'X' then (radixDigits 16 n.natAbs).map Char.toUpper
    else radixDigits 10 n.natAbs
  let front := if l.has '#' && (letter = 'o' || letter = 'x' || letter = 'X') then ['0', letter] else []
  l.padNumber (n < 0) front (List.replicate (l.precision.getD 0 - digits.length) '0' ++ digits)

end PercentLayout

def charOf? (n : Int) : Option Char :=
  if 0 ≤ n && n < 0x110000 then some (Char.ofNat n.toNat) else none

/-- What an argument gives at a place of the given letter. -/
def percentField (l : PercentLayout) (letter : Char) (index : Nat) (arg : Datum) :
    Except PercentError (List Char) :=
  if letter = 's' then .ok (l.writeText arg.text.toList)
  else if letter = 'r' then .ok (l.writeText arg.quoted.toList)
  else if letter = 'a' then .ok (l.writeText (escapeWide arg.quoted.toList))
  else if letter = 'd' || letter = 'i' || letter = 'u' then
    match arg.integer? with
    | some n => .ok (l.writeInteger letter n)
    | none => .error (.notANumber letter arg.typeName)
  else if letter = 'o' || letter = 'x' || letter = 'X' then
    match arg.integer? with
    | some n => .ok (l.writeInteger letter n)
    | none => .error (.notAnInteger letter arg.typeName)
  else if letter = 'c' then
    match arg, arg.integer? with
    | .string s, _ => if s.length = 1 then .ok (l.pad s.toList) else .error .notACharacter
    | _, some n =>
      match charOf? n with
      | some c => .ok (l.pad [c])
      | none => .error .outOfRange
    | _, none => .error .notACharacter
  else match RealForm.ofLetter? letter with
    | some form =>
      match arg.integer? with
      | none => .error (.notReal arg.typeName)
      | some n =>
        match nearestReal n.natAbs with
        | none => .error .outOfRange
        | some m =>
          let mark := if letter.isUpper then 'E' else 'e'
          let (whole, rest) := form.write mark (l.has '#') (l.precision.getD 6) m
          .ok (l.padNumber (n < 0) [] (whole ++ rest))
    | none => .error (.unsupported letter index)

/-- What is left of a template and of its arguments, and how many characters were read. -/
structure PercentState where
  index : Nat
  rest : List Char
  args : List Datum

namespace PercentState

def skip (st : PercentState) (n : Nat) : PercentState :=
  { st with index := st.index + n, rest := st.rest.drop n }

def nextArg (st : PercentState) : Except PercentError (Datum × PercentState) :=
  match st.args with
  | [] => .error .tooFew
  | arg :: args => .ok (arg, { st with args })

def isMark (c : Char) : Bool := c == '-' || c == '+' || c == ' ' || c == '#' || c == '0'

/-- A number in the template, or one that an argument gives. -/
def number? (st : PercentState) (limit : Nat) (e : PercentError) :
    Except PercentError (Option Int × PercentState) :=
  match st.rest with
  | '*' :: _ => do
    let (arg, st) ← st.nextArg
    match arg.integer? with
    | none => .error .notAWidth
    | some n =>
      if (limit : Int) < n || n < -(limit : Int) - 1 then .error .outOfRange
      else return (some n, st.skip 1)
  | rest =>
    let digits := rest.takeWhile Char.isDigit
    if digits.isEmpty then .ok (none, st)
    else
      let n := digits.foldl (fun n c => 10 * n + (c.toNat - 48)) 0
      if limit < n then .error e else .ok (some n, st.skip digits.length)

/-- Reads the layout of a place. A negative width asks for the left side. -/
def layout (st : PercentState) : Except PercentError (PercentLayout × PercentState) := do
  let marks := st.rest.takeWhile isMark
  let (width, st) ← (st.skip marks.length).number? (Nat.pow 2 63 - 1) .wideField
  let width := width.getD 0
  let marks := if width < 0 then '-' :: marks else marks
  let (precision, st) ← match st.rest with
    | '.' :: _ => do
      let (n, st) ← (st.skip 1).number? (Nat.pow 2 31 - 1) .longField
      .ok (some (n.getD 0).toNat, st)
    | _ => .ok (none, st)
  let st := match st.rest with
    | c :: _ => if c = 'h' || c = 'l' || c = 'L' then st.skip 1 else st
    | [] => st
  return (⟨marks, width.natAbs, precision⟩, st)

end PercentState

/-- Fills the places of a template from the left. Every step reads a character, so a bound above
their number is never used up. -/
def fillFrom : Nat → PercentState → Except PercentError (List Char)
  | 0, _ => .ok []
  | bound + 1, st =>
    match st.rest with
    | [] => if st.args.isEmpty then .ok [] else .error .tooMany
    | '%' :: '%' :: _ => return '%' :: (← fillFrom bound (st.skip 2))
    | '%' :: '(' :: _ => .error .named
    | '%' :: _ => do
      let (l, st) ← (st.skip 1).layout
      match st.rest with
      | [] => .error .incomplete
      | letter :: _ =>
        let (arg, st) ← st.nextArg
        let field ← percentField l letter st.index arg
        return field ++ (← fillFrom bound (st.skip 1))
    | c :: _ => return c :: (← fillFrom bound (st.skip 1))

def fill (template : String) (args : List Datum) : Except PercentError String :=
  (fillFrom (template.length + 1) ⟨0, template.toList, args⟩).map String.ofList

end SuiteLint.Text
