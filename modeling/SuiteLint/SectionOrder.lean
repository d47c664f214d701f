import SuiteLint.Text.Case
import SuiteLint.Text.Find
import SuiteLint.Text.Sorted

/-! The order in which the sections of a file should stand. -/
namespace SuiteLint

inductive HeaderKind where
  | settings | variableRows | testCases | tasks | keywords
  deriving DecidableEq, Repr

namespace HeaderKind

def label : HeaderKind → String
  | settings => "SETTING HEADER"
  | variableRows => "VARIABLE HEADER"
  | testCases => "TESTCASE HEADER"
  | tasks => "TASK HEADER"
  | keywords => "KEYWORD HEADER"

/-- The name of the section in messages; tests and tasks share one. -/
def title : HeaderKind → String
  | settings => "Settings"
  | variableRows => "Variables"
  | testCases | tasks => "Test Cases / Tasks"
  | keywords => "Keywords"

def ofName? (name : String) : Option HeaderKind :=
  if name == "settings" then some settings
  else if name == "variables" then some variableRows
  else if name == "testcase" || name == "testcases" then some testCases
  else if name == "task" || name == "tasks" then some tasks
  else if name == "keyword" || name == "keywords" then some keywords
  else none

end HeaderKind

abbrev SectionOrder := List (HeaderKind × Nat)

namespace SectionOrder

def position? (order : SectionOrder) (kind : HeaderKind) : Option Nat := order.lookup kind

/-- Gives a kind a position, in its old place if it has one. -/
def place (order : SectionOrder) (kind : HeaderKind) (position : Nat) : SectionOrder :=
  if (order.position? kind).isSome then
    order.map fun entry => if entry.1 = kind then (kind, position) else entry
  else order ++ [(kind, position)]

def readKinds (order : SectionOrder) (index : Nat) : List String → Option SectionOrder
  | [] => some order
  | name :: names =>
    match HeaderKind.ofName? (String.ofList (Text.lower name.toList)) with
    | none => none
    | some kind =>
      if (order.position? kind).isSome then none
      else readKinds (order ++ [(kind, index)]) (index + 1) names

def withTasks (order : SectionOrder) : SectionOrder :=
  match order.position? .testCases with
  | some position => order.place .tasks position
  | none => order

/-- Reads a list of section names with commas between them. -/
def parse (value : String) : Option SectionOrder :=
  (readKinds [] 0 ((Text.splitAt ',' value.toList).map String.ofList)).map withTasks

def describe (order : SectionOrder) : String :=
  " > ".intercalate (Text.distinct (order.map (·.1.title)))

def standard : SectionOrder :=
  [(.settings, 0), (.variableRows, 1), (.testCases, 2), (.keywords, 3), (.tasks, 2)]

end SectionOrder

end SuiteLint
