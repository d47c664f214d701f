/-! Values of a TOML file. -/
namespace SuiteLint.Toml

inductive Value where
  | text (s : String)
  | integer (n : Int)
  | flag (b : Bool)
  | list (values : List Value)
  | table (entries : List (String × Value))
  /-- A number that is not whole, or a date: it says no more than whether it counts as true. -/
  | other (truth : Bool)
  deriving Inhabited

def replaceEntry (name : String) (v : Value) (entries : List (String × Value)) :
    List (String × Value) :=
  entries.map fun e => if e.1 = name then (name, v) else e

namespace Value

def entries : Value → List (String × Value)
  | table es => es
  | _ => []

def text? : Value → Option String
  | text s => some s
  | _ => none

/-- The texts of a list; a text counts as the list of its characters. -/
def texts : Value → List String
  | list vs => vs.filterMap text?
  | text s => s.toList.map (String.ofList [·])
  | _ => []

def isTrue : Value → Bool
  | text s => !s.isEmpty
  | integer n => n != 0
  | flag b => b
  | list vs => !vs.isEmpty
  | table es => !es.isEmpty
  | other truth => truth

end Value

end SuiteLint.Toml
