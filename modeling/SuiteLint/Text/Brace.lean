import SuiteLint.Text.Find
import SuiteLint.Text.Layout
import SuiteLint.Text.Quoted

/-! Templates with named fields in braces. -/
namespace SuiteLint.Text

inductive Field where
  | text (s : String)
  | number (n : Int)
  deriving DecidableEq

inductive BraceError where
  | lonelyOpen | lonelyClose | unclosed | unclosedSpec | nestedOpen
  | missingConversion | missingColon
  | unknownField (name : String)
  | positional
  | longIndex
  | emptyPart | unclosedIndex | looseIndex
  | unknownPart
  | indexRange
  /-- A place in something that has none, or a place that is no number. -/
  | noIndex
  | unknownConversion (c : Char)
  | tooDeep
  | badLayout (e : LayoutError)
  deriving DecidableEq

def BraceError.message : BraceError → String
  | .lonelyOpen => "Single '\x7b' encountered in format string"
  | .lonelyClose => "Single '\x7d' encountered in format string"
  | .unclosed => "expected '\x7d' before end of string"
  | .unclosedSpec => "unmatched '\x7b' in format spec"
  | .nestedOpen => "unexpected '\x7b' in field name"
  | .missingConversion => "end of string while looking for conversion specifier"
  | .missingColon => "expected ':' after conversion specifier"
  | .unknownField name => name
  | .positional => "Replacement index 0 out of range for positional args tuple"
  | .longIndex => "Too many decimal digits in format string"
  | .emptyPart => "Empty attribute in format string"
  | .unclosedIndex => "Missing ']' in format string"
  | .looseIndex => "Only '.' or '[' may follow ']' in format field specifier"
  | .unknownPart | .indexRange | .noIndex => ""
  | .unknownConversion c => "Unknown conversion specifier " ++
      (if 32 < c.toNat && c.toNat < 127 then c.toString
       else "\\x" ++ String.ofList (Nat.toDigits 16 c.toNat))
  | .tooDeep => "Max string recursion exceeded"
  | .badLayout e => e.message

namespace Field

def plain : Field → List Char
  | text s => s.toList
  | number n => (toString n).toList

def quote : Field → List Char
  | text s => quoted s.toList
  | number n => (toString n).toList

/-- A part of a value by its name: numbers are fractions and complex numbers too. -/
def part (value : Field) (name : List Char) : Except BraceError Field :=
  match value with
  | number n =>
    if name = "real".toList || name = "numerator".toList then .ok (.number n)
    else if name = "imag".toList then .ok (.number 0)
    else if name = "denominator".toList then .ok (.number 1)
    else .error .unknownPart
  | text _ => .error .unknownPart

/-- The index that some digits stand for; none if they are not all digits. -/
def index? (s : List Char) : Except BraceError (Option Nat) :=
  if s.isEmpty || !s.all isDecimal then .ok none
  else
    let n := s.foldl (fun n c => 10 * n + (digitValue c).getD 0) 0
    if Nat.pow 2 63 ≤ n then .error .longIndex else .ok (some n)

def item (value : Field) (index : List Char) : Except BraceError Field := do
  match value, ← index? index with
  | text s, some n =>
    match s.toList[n]? with
    | some c => .ok (.text c.toString)
    | none => .error .indexRange
  | _, _ => .error .noIndex

/-- Follows the parts after the name of a field. Every part takes a character, so a bound above their
number is never used up. -/
def follow : Nat → Field → List Char → Except BraceError Field
  | 0, value, _ => .ok value
  | _ + 1, value, [] => .ok value
  | bound + 1, value, c :: rest =>
    if c = '.' then
      let name := rest.takeWhile fun c => c != '.' && c != '['
      if name.isEmpty then .error .emptyPart
      else do
        let value ← value.part name
        follow bound value (rest.drop name.length)
    else if c = '[' then
      match cutAt ']' rest with
      | (_, none) => .error .unclosedIndex
      | (index, some rest) => do
        if index.isEmpty then .error .emptyPart
        let value ← value.item index
        follow bound value rest
    else .error .looseIndex

def write (value : Field) (conversion : Option Char) (spec : List Char) :
    Except BraceError (List Char) :=
  let written := match conversion, value with
    | none, .number n => Layout.writeInteger spec n
    | none, .text s => Layout.writeText spec s.toList
    | some 's', _ => Layout.writeText spec value.plain
    | some 'a', _ => Layout.writeText spec (escapeWide value.quote)
    | some _, _ => Layout.writeText spec value.quote
  written.mapError .badLayout

end Field

namespace Brace

/-- A field of a template: its name with parts, a conversion, and a layout. -/
structure Slot where
  name : List Char
  conversion : Option Char
  spec : List Char

/-- The name of a field up to the sign that ends it, that sign, and what follows. Braces and colons
between square brackets belong to the name. -/
def nameOf (inIndex : Bool) : List Char → Except BraceError (List Char × Option Char × List Char)
  | [] => .ok ([], none, [])
  | c :: rest =>
    if inIndex then (nameOf (c != ']') rest).map fun (n, e) => (c :: n, e)
    else if c = '\x7b' then .error .nestedOpen
    else if c = '\x7d' || c = ':' || c = '!' then .ok ([], some c, rest)
    else (nameOf (c == '[') rest).map fun (n, e) => (c :: n, e)

def specOf : Nat → List Char → Except BraceError (List Char × List Char)
  | _, [] => .error .unclosedSpec
  | depth, c :: rest =>
    if c = '\x7b' then (specOf (depth + 1) rest).map fun (s, r) => (c :: s, r)
    else if c = '\x7d' then
      match depth with
      | 0 => .ok ([], rest)
      | depth + 1 => (specOf depth rest).map fun (s, r) => (c :: s, r)
    else (specOf depth rest).map fun (s, r) => (c :: s, r)

def slot (s : List Char) : Except BraceError (Slot × List Char) := do
  let (name, stop, rest) ← nameOf false s
  match stop, rest with
  | none, _ => .error .unclosed
  | some '!', [] => .error .missingConversion
  | some '!', c :: '\x7d' :: rest => return (⟨name, some c, []⟩, rest)
  | some '!', c :: ':' :: rest =>
    let (spec, rest) ← specOf 0 rest
    return (⟨name, some c, spec⟩, rest)
  | some '!', [_] => .error .unclosedSpec
  | some '!', _ => .error .missingColon
  | some ':', rest =>
    let (spec, rest) ← specOf 0 rest
    return (⟨name, none, spec⟩, rest)
  | some _, rest => return (⟨name, none, []⟩, rest)

def valueOf (fields : List (String × Field)) (name : List Char) : Except BraceError Field := do
  let head := name.takeWhile fun c => c != '.' && c != '['
  if head.isEmpty || (← Field.index? head).isSome then .error .positional
  match fields.lookup (String.ofList head) with
  | none => .error (.unknownField (String.ofList head))
  | some value => value.follow (name.length + 1) (name.drop head.length)

def fillSlot (fields : List (String × Field))
    (expand : List Char → Except BraceError (List Char)) (t : Slot) :
    Except BraceError (List Char) := do
  let value ← valueOf fields t.name
  match t.conversion with
  | some c => if c != 's' && c != 'r' && c != 'a' then .error (.unknownConversion c)
  | none => pure ()
  let spec ← if t.spec.contains '\x7b' then expand t.spec else .ok t.spec
  value.write t.conversion spec

/-- Fills in a template of at most `bound` characters. -/
def fillWithin (fields : List (String × Field))
    (expand : List Char → Except BraceError (List Char)) :
    Nat → List Char → Except BraceError (List Char)
  | _, [] => .ok []
  | 0, _ => .ok []
  | bound + 1, c :: rest =>
    if c = '\x7b' then
      match rest with
      | [] => .error .lonelyOpen
      | d :: more =>
        if d = '\x7b' then return d :: (← fillWithin fields expand bound more)
        else do
          let (t, after) ← slot rest
          let written ← fillSlot fields expand t
          return written ++ (← fillWithin fields expand bound after)
    else if c = '\x7d' then
      match rest with
      | '\x7d' :: more => return c :: (← fillWithin fields expand bound more)
      | _ => .error .lonelyClose
    else return c :: (← fillWithin fields expand bound rest)

def fillDeep (fields : List (String × Field)) : Nat → List Char → Except BraceError (List Char)
  | 0, _ => .error .tooDeep
  | depth + 1, s => fillWithin fields (fillDeep fields depth) s.length s

def render (template : String) (fields : List (String × Field)) : Except BraceError String :=
  (fillDeep fields 2 template.toList).map String.ofList

end Brace

end SuiteLint.Text
