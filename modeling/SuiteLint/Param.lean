import SuiteLint.SectionOrder
import SuiteLint.Text.Pattern

/-! The parameters of rules: the kinds of values they take, and how these are read and shown. -/
namespace SuiteLint

inductive ParamKind where
  | integer | text | pattern | sign | order
  deriving DecidableEq

namespace ParamKind

def name : ParamKind → String
  | integer => "int"
  | text | order => "str"
  | pattern => "pattern_type"
  | sign => "parse_assignment_sign_type"

end ParamKind

inductive ParamValue where
  | absent
  | integer (n : Int)
  | text (s : String)
  | pattern (p : Text.Pattern)
  | order (o : SectionOrder)
  deriving DecidableEq

def quotedString (s : String) : String := String.ofList (Text.quoted s.toList)

namespace ParamValue

def showOrder (o : SectionOrder) : String :=
  let entry (e : HeaderKind × Nat) := quotedString e.1.label ++ ": " ++ toString e.2
  "\x7b" ++ ", ".intercalate (o.map entry) ++ "\x7d"

def shown : ParamValue → String
  | absent => "None"
  | integer n => toString n
  | text s => s
  | pattern p => p.shown
  | order o => showOrder o

end ParamValue

inductive ParamError where
  | notAnInteger (value : String) (e : Text.IntegerError)
  | badPattern (source : String) (e : Text.PatternError)
  | unknownSign (value : String)
  | badOrder (value : String)
  deriving DecidableEq

def ParamError.message : ParamError → String
  | .notAnInteger _ (.tooLong digits) => Text.IntegerError.message (.tooLong digits)
  | .notAnInteger value .malformed =>
    "invalid literal for int() with base 10: " ++
      String.ofList ((Text.quoted value.toList).take 200)
  | .badPattern source e => e.message source.toList
  | .unknownSign value =>
    "Expected one of ('none', 'equal_sign', 'space_and_equal_sign', 'autodetect') but got '" ++
      value ++ "' instead"
  | .badOrder value => "Fatal error: Rule '0809' has invalid configurable:\n" ++ value

def signNamed? (value : String) : Option String :=
  if value == "none" then some ""
  else if value == "equal_sign" then some "="
  else if value == "space_and_equal_sign" then some " ="
  else if value == "autodetect" then some "autodetect"
  else none

namespace ParamKind

def read (kind : ParamKind) (value : String) : Except ParamError ParamValue :=
  match kind with
  | integer =>
    match Text.parseInteger value.toList with
    | .ok n => .ok (.integer n)
    | .error e => .error (.notAnInteger value e)
  | text => .ok (.text value)
  | pattern =>
    match Text.Pattern.parse value with
    | .ok p => .ok (.pattern p)
    | .error e => .error (.badPattern value e)
  | sign =>
    match signNamed? value with
    | some s => .ok (.text s)
    | none => .error (.unknownSign value)
  | order =>
    match SectionOrder.parse value with
    | some o => .ok (.order o)
    | none => .error (.badOrder value)

end ParamKind

/-- A parameter of a rule and the slot of the checker that holds its value. -/
structure Param where
  name : String
  slot : String
  kind : ParamKind
  info : Option String
  deriving DecidableEq

abbrev Values := List (String × ParamValue)

namespace Values

def get (vs : Values) (slot : String) : ParamValue := (vs.lookup slot).getD .absent

def set (vs : Values) (slot : String) (value : ParamValue) : Values :=
  if (vs.lookup slot).isSome then
    vs.map fun entry => if entry.1 = slot then (slot, value) else entry
  else vs ++ [(slot, value)]

def integer (vs : Values) (slot : String) : Int :=
  match vs.get slot with
  | .integer n => n
  | _ => 0

def text (vs : Values) (slot : String) : String :=
  match vs.get slot with
  | .text s => s
  | _ => ""

def pattern (vs : Values) (slot : String) : Text.Pattern :=
  match vs.get slot with
  | .pattern p => p
  | _ => ⟨"", [], .empty⟩

def order (vs : Values) (slot : String) : SectionOrder :=
  match vs.get slot with
  | .order o => o
  | _ => .standard

end Values

def Param.describe (p : Param) (value : ParamValue) : String :=
  p.name ++ " = " ++ value.shown ++ "\n        type: " ++ p.kind.name ++
    (match p.info with
      | some info => "\n        info: " ++ info
      | none => "")

end SuiteLint
