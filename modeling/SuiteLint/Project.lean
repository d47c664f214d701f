import SuiteLint.Project.Tree
import SuiteLint.Toml

/-! A project: a tree of files and the directory that a run starts in. -/
namespace SuiteLint

structure Project where
  tree : Tree
  cwd : Path
  /-- The modules of rules that are found by name alone. -/
  modules : List String
  written : List (List String)
  /-- Reads a TOML file; none if the text is not one. -/
  readToml : List Char → Option (List (String × Toml.Value))

namespace Project

def absolute (project : Project) (p : Path) : Path := project.cwd.join p

def find? (project : Project) (p : Path) : Option Tree := project.tree.find? (project.absolute p)

def file? (project : Project) (p : Path) : Option SuiteFile := (project.find? p).bind Tree.file?

def isFile (project : Project) (p : Path) : Bool := (project.file? p).isSome

def holds (project : Project) (p : Path) : Bool := (project.find? p).isSome

def ancestors (p : Path) : List Path :=
  (List.range (p.parts.length + 1)).reverse.map fun n => { p with parts := p.parts.take n }

def settingsFile? (project : Project) (root : Path) (name : String) : Option Path := do
  let directory ← (ancestors root).find? fun d =>
    project.holds (d.join ⟨"", [".git"]⟩) || project.isFile (d.join ⟨"", [name]⟩)
  let path := directory.join ⟨"", [name]⟩
  if project.isFile path then some path else none

/-- The place that a file can be written to. -/
def place (project : Project) (p : Path) : Except PathError (List String) := do
  let goal := project.absolute p
  match project.tree.walk [] goal.parts with
  | .ok place =>
    match project.tree.at? place with
    | some (.directory _) => .error .isDirectory
    | _ => .ok place
  | .error e =>
    let above ← project.tree.walk [] goal.parent.parts
    match project.tree.at? above with
    | some (.directory _) => if e = .missing then .ok (above ++ [goal.name]) else .error e
    | _ => .error .notDirectory

def openFile (project : Project) (name : String) : Except PathError Project :=
  if name.isEmpty then .error .missing
  else do
    let place ← project.place (Path.ofString name)
    return { project with
      tree := project.tree.put place (.file (.plain []))
      written := place :: project.written }

def append (project : Project) (name text : String) : Project :=
  match project.place (Path.ofString name) with
  | .error _ => project
  | .ok place =>
    let before := (((project.tree.at? place).bind Tree.file?).map (·.bytes)).getD []
    { project with tree := project.tree.put place (.file (.plain (before ++ text.toUTF8.toList))) }

end Project

end SuiteLint
