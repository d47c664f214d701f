import SuiteLint.Param
import SuiteLint.Severity

/-! The values that rule definitions and message arguments are made of, and how they are written. -/
namespace SuiteLint

inductive Datum where
  | null
  | flag (b : Bool)
  | integer (n : Int)
  | string (s : String)
  | list (items : List Datum)
  | tuple (items : List Datum)
  | table (entries : List (String × Datum))
  | severity (s : Severity)
  | kind (k : ParamKind)
  deriving Inhabited

namespace Datum

def typeName : Datum → String
  | null => "NoneType"
  | flag _ => "bool"
  | integer _ => "int"
  | string _ => "str"
  | list _ => "list"
  | tuple _ => "tuple"
  | table _ => "dict"
  | severity _ => "RuleSeverity"
  | kind .integer | kind .text => "type"
  | kind _ => "function"

def integer? : Datum → Option Int
  | integer n => some n
  | flag b => some (if b then 1 else 0)
  | _ => none

def quotedKind (k : ParamKind) : String :=
  match k with
  | .integer | .text => "<class '" ++ k.name ++ "'>"
  | _ => "<function " ++ k.name ++ ">"

mutual

/-- The value as it is written inside another value. -/
def quoted : Datum → String
  | null => "None"
  | flag b => if b then "True" else "False"
  | integer n => toString n
  | string s => quotedString s
  | list items => "[" ++ ", ".intercalate (quotedAll items) ++ "]"
  | tuple [item] => "(" ++ item.quoted ++ ",)"
  | tuple items => "(" ++ ", ".intercalate (quotedAll items) ++ ")"
  | table entries => "\x7b" ++ ", ".intercalate (quotedEntries entries) ++ "\x7d"
  | severity s => "<RuleSeverity." ++ s.title ++ ": '" ++ s.letter ++ "'>"
  | kind k => quotedKind k

def quotedAll : List Datum → List String
  | [] => []
  | item :: items => item.quoted :: quotedAll items

def quotedEntries : List (String × Datum) → List String
  | [] => []
  | (key, value) :: entries => (quotedString key ++ ": " ++ value.quoted) :: quotedEntries entries

end

/-- The value as it stands in a message: a string without quotes. -/
def text : Datum → String
  | string s => s
  | value => value.quoted

def slotValue : Datum → ParamValue
  | null => .absent
  | integer n => .integer n
  | value => .text value.text

end Datum

end SuiteLint
