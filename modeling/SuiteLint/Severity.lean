import SuiteLint.Text.Case

/-! How serious an issue is. -/
namespace SuiteLint

inductive Severity where
  | info | warning | error
  deriving DecidableEq, Repr

namespace Severity

def all : List Severity := [info, warning, error]

def letter : Severity → String
  | info => "I"
  | warning => "W"
  | error => "E"

def title : Severity → String
  | info => "INFO"
  | warning => "WARNING"
  | error => "ERROR"

def rank : Severity → Nat
  | info => 0
  | warning => 1
  | error => 2

instance : LT Severity := ⟨fun a b => a.rank < b.rank⟩
instance : LE Severity := ⟨fun a b => a.rank ≤ b.rank⟩
instance (a b : Severity) : Decidable (a < b) := inferInstanceAs (Decidable (a.rank < b.rank))
instance (a b : Severity) : Decidable (a ≤ b) := inferInstanceAs (Decidable (a.rank ≤ b.rank))

def ofThreshold (s : String) : Severity :=
  let wanted := String.ofList (Text.upper s.toList)
  (all.find? (·.letter == wanted)).getD info

def ofSetting? (s : String) : Option Severity :=
  let wanted := String.ofList (Text.lower s.toList)
  if wanted == "error" || wanted == "e" then some error
  else if wanted == "warning" || wanted == "w" then some warning
  else if wanted == "info" || wanted == "i" then some info
  else none

def diagnostic : Option Severity → Nat
  | some error => 1
  | some warning => 2
  | some info => 3
  | none => 4

end Severity

end SuiteLint
