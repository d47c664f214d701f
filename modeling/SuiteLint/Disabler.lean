import SuiteLint.Text.Blank
import SuiteLint.Text.Find
import SuiteLint.Text.Line
import SuiteLint.Text.Word

/-! Comments that switch rules off, `# noqa` and `# robocop: disable`: for the line they end, or from their
own line to that of a `# robocop: enable`. -/
namespace SuiteLint

inductive Disabler.Action where
  | disable | enable
  deriving DecidableEq

structure Disabler.Command where
  action : Disabler.Action
  rules : List String
  deriving DecidableEq

structure Disabler.Marks where
  opened : Option Nat
  lines : List Nat
  blocks : List (Nat × Nat)
  deriving DecidableEq

def Disabler.Marks.none : Disabler.Marks := ⟨.none, [], []⟩

abbrev Disabler.Table := List (String × Disabler.Marks)

structure Disablers where
  table : Disabler.Table
  wholeFile : Bool
  any : Bool
  deriving DecidableEq

namespace Disabler

def isRuleNameChar (c : Char) : Bool := Text.isWord c || c == '-' || c == ','

def namedRules (s : List Char) : List String :=
  let names := match s with
    | '=' :: rest => rest.takeWhile isRuleNameChar
    | rest => rest.takeWhile isRuleNameChar
  if names.isEmpty then ["all"] else (Text.splitAt ',' names).map String.ofList

def commandAt (s : List Char) : Option Command := do
  let rest ← Text.after? "robocop:".toList s
  let rest := match rest with
    | ' ' :: more => more
    | more => more
  match Text.after? "disable".toList rest, Text.after? "enable".toList rest with
  | some names, _ => some ⟨.disable, namedRules names⟩
  | none, some names => some ⟨.enable, namedRules names⟩
  | none, none => none

def command? : List Char → Option Command
  | [] => none
  | c :: rest => (commandAt (c :: rest)).or (command? rest)

namespace Table

def marks (t : Table) (rule : String) : Marks := (t.lookup rule).getD .none

def update (t : Table) (rule : String) (f : Marks → Marks) : Table :=
  if (t.lookup rule).isSome then
    t.map fun entry => if entry.1 = rule then (rule, f entry.2) else entry
  else t ++ [(rule, f .none)]

def addLine (t : Table) (rule : String) (line : Nat) : Table :=
  t.update rule fun m => if m.lines.contains line then m else { m with lines := m.lines ++ [line] }

def openBlock (t : Table) (rule : String) (line : Nat) : Table :=
  t.update rule fun m => { m with opened := m.opened.or (some line) }

end Table

def Marks.close (line : Nat) (m : Marks) : Marks :=
  match m.opened with
  | some first => { m with opened := .none, blocks := m.blocks ++ [(first, line)] }
  | .none => m

def Table.closeBlock (t : Table) (rule : String) (line : Nat) : Table :=
  if rule = "all" then t.map fun entry => (entry.1, entry.2.close line)
  else t.map fun entry => if entry.1 = rule then (rule, entry.2.close line) else entry

/-- Carries out a command; `alone` if nothing but blanks precedes its comment. -/
def obey (t : Table) (alone : Bool) (line : Nat) (c : Command) : Table :=
  match c.action, alone with
  | .disable, true => c.rules.foldl (fun t rule => t.openBlock rule line) t
  | .disable, false => c.rules.foldl (fun t rule => t.addLine rule line) t
  | .enable, true => c.rules.foldl (fun t rule => t.closeBlock rule line) t
  | .enable, false => t

def readLine (t : Table) (number : Nat) (line : List Char) : Table :=
  match Text.cutAt '#' line with
  | (_, none) => t
  | (before, some comment) =>
    let t := if Text.has "# noqa".toList line then t.addLine "all" number else t
    match command? comment with
    | none => t
    | some c => obey t (Text.isBlankText before) number c

def readLines (t : Table) (number : Nat) : List (List Char) → Table
  | [] => t
  | line :: lines => readLines (readLine t number line) (number + 1) lines

def chained (first last : Nat) : List (Nat × Nat) → Bool
  | [] => first == last
  | (start, stop) :: blocks => first == start && chained stop last blocks

def coversFile (t : Table) (last : Nat) : Bool :=
  match t.lookup "all" with
  | some m => chained 1 last m.blocks
  | none => false

end Disabler

namespace Disablers

def none : Disablers := ⟨[], false, false⟩

def everything : Disablers := ⟨[], true, false⟩

def ofLines (lines : List (List Char)) : Disablers :=
  if lines.isEmpty then none
  else
    let t := (Disabler.readLines [] 1 lines).closeBlock "all" lines.length
    ⟨t, Disabler.coversFile t lines.length, !t.isEmpty⟩

def ofText (text : List Char) : Disablers := ofLines ((Text.lines text).map Text.chomp)

def coversLine (d : Disablers) (line : Int) (rule : String) : Bool :=
  match d.table.lookup rule with
  | some m =>
    m.lines.any (fun l => (l : Int) == line) ||
      m.blocks.any fun b => decide ((b.1 : Int) ≤ line) && decide (line ≤ (b.2 : Int))
  | .none => false

def covers (d : Disablers) (lines : List Int) (id name : String) : Bool :=
  d.any && lines.any fun line => ["all", id, name].any (d.coversLine line)

end Disablers

end SuiteLint
