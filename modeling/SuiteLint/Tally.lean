/-! Counts of things, in the order in which these were first seen. -/
namespace SuiteLint

abbrev Tally (κ : Type) := List (κ × Nat)

namespace Tally

variable {κ : Type}

def total (t : Tally κ) : Nat := t.foldr (fun entry n => entry.2 + n) 0

variable [DecidableEq κ]

def count (t : Tally κ) (key : κ) : Nat := (t.lookup key).getD 0

/-- Adds to the count of a key, in its old place if it has one. -/
def add (t : Tally κ) (key : κ) (n : Nat) : Tally κ :=
  if (t.lookup key).isSome then
    t.map fun entry => if entry.1 = key then (key, entry.2 + n) else entry
  else t ++ [(key, n)]

def ofList (keys : List κ) : Tally κ := keys.foldl (fun t key => t.add key 1) []

/-- The counts of both tallies; the keys of the first come first. -/
def merge (t u : Tally κ) : Tally κ := u.foldl (fun t entry => t.add entry.1 entry.2) t

def mostCommon? : Tally κ → Option κ
  | [] => none
  | first :: rest =>
    some (rest.foldl (fun best entry => if best.2 < entry.2 then entry else best) first).1

end Tally

end SuiteLint
