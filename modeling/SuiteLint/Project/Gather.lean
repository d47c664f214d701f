import SuiteLint.Error
import SuiteLint.Project

/-! The files that a run looks at. -/
namespace SuiteLint

structure Wanted where
  /-- Patterns of paths that are passed over, with all that lies below them. -/
  ignored : List String
  /-- Endings of names, in lower case. -/
  types : List String
  /-- Whether directories within a directory are entered. -/
  recursive : Bool

/-- Paths in the order in which they are found, up to an error. -/
structure Gathered where
  paths : List Path
  error : Option LintError

namespace Gathered

def none : Gathered := ⟨[], .none⟩

def append (a b : Gathered) : Gathered :=
  match a.error with
  | some _ => a
  | .none => ⟨a.paths ++ b.paths, b.error⟩

end Gathered

namespace Tree

def unlessIgnored (w : Wanted) (p : Path) (below : Gathered) : Gathered :=
  match p.fitsAny? w.ignored with
  | .none => ⟨[], some .emptyPattern⟩
  | some true => .none
  | some false => below

mutual

def gather (w : Wanted) (p : Path) : Tree → Gathered
  | file _ => unlessIgnored w p ⟨if p.hasType w.types then [p] else [], .none⟩
  | directory es => unlessIgnored w p (gatherEntries w p es)

def gatherEntries (w : Wanted) (p : Path) : List (String × Tree) → Gathered
  | [] => .none
  | (name, t) :: es =>
    if t.isDirectory && !w.recursive then gatherEntries w p es
    else (gather w { p with parts := p.parts ++ [name] } t).append (gatherEntries w p es)

end

end Tree

namespace Project

def gatherPath (project : Project) (w : Wanted) (p : Path) : Gathered :=
  match project.find? p with
  | none => ⟨[], some (.missingFile p.toString)⟩
  | some t => t.gather w p

def gather (project : Project) (w : Wanted) : List Path → Gathered
  | [] => .none
  | p :: ps => (project.gatherPath w p).append (project.gather w ps)

end Project

end SuiteLint
