import SuiteLint.Linter
import SuiteLint.Project.Gather

/-! The documents of a run: every wanted file is read, as a resource if another one imports it. -/
namespace SuiteLint

structure Scanned where
  path : Path
  kind : FileKind
  document : Document

/-- The files of a run, each path once, with notes on those that cannot be read. -/
structure Scan where
  files : List Scanned
  notes : List String

namespace Scan

def none : Scan := ⟨[], []⟩

/-- A file that was there before keeps its place. -/
def enter (new : Scanned) : List Scanned → List Scanned
  | [] => [new]
  | f :: fs => if f.path = new.path then new :: fs else f :: enter new fs

def add (project : Project) (scan : Scan) (p : Path) : Scan :=
  let kind := FileKind.ofPath p
  match (project.file? p).bind fun f => f.read kind with
  | some d => { scan with files := enter ⟨p, kind, { d with source := p.toString }⟩ scan.files }
  | .none => { scan with notes := scan.notes ++ [Content.decodeNote p.toString] }

/-- The file that an import in some file leads to, if there is one. An import without a name looks
for one called None. -/
def importTarget? (project : Project) (importer : Path) (s : Statement) : Option Path :=
  let directory := importer.parent
  let name := Path.fillIn (s.name?.getD "None") directory.toString project.cwd.toString
  let target := (directory.join (Path.ofString name).normalized).normalized
  if project.isFile target then some target else .none

def imports (project : Project) (f : Scanned) : List Path :=
  (f.document.statementsOf .resourceImport).filterMap (importTarget? project f.path)

def asResource (project : Project) (f : Scanned) : Scanned :=
  match (project.file? f.path).bind fun file => file.read .resource with
  | some d => { f with kind := .resource, document := { d with source := f.path.toString } }
  | .none => { f with kind := .resource }

def settle (project : Project) (files : List Scanned) : List Scanned :=
  let resources := files.flatMap (imports project)
  files.map fun f => if resources.contains f.path then asResource project f else f

def ofPaths (project : Project) (paths : List Path) : Scan :=
  let scan := paths.foldl (add project) none
  { scan with files := settle project scan.files }

end Scan

def Scanned.subject (project : Project) (f : Scanned) : Subject :=
  ⟨f.path.toString, .bytes (((project.file? f.path).map (·.bytes)).getD []), f.document⟩

end SuiteLint
