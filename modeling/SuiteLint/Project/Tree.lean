import SuiteLint.Project.Path
import SuiteLint.Suite.Document

/-! Directory trees with the files of suites in them. -/
namespace SuiteLint

/-- What a file is for, which decides how it is read. -/
inductive FileKind where
  | init | resource | general
  deriving DecidableEq

def FileKind.ofPath (p : Path) : FileKind :=
  if Text.has "__init__".toList p.name.toList then .init
  else if Text.lower p.suffix.toList = ".resource".toList then .resource
  else .general

/-- A file: its bytes, and the document that they hold when they are read as a file of some kind.
There is none if they cannot be read. -/
structure SuiteFile where
  bytes : List UInt8
  read : FileKind → Option Document

def SuiteFile.plain (bytes : List UInt8) : SuiteFile := ⟨bytes, fun _ => none⟩

inductive Tree where
  | file (f : SuiteFile)
  | directory (entries : List (String × Tree))

inductive PathError where
  | missing | notDirectory | isDirectory
  deriving DecidableEq

namespace PathError

def code : PathError → Nat
  | missing => 2
  | notDirectory => 20
  | isDirectory => 21

def reason : PathError → String
  | missing => "No such file or directory"
  | notDirectory => "Not a directory"
  | isDirectory => "Is a directory"

end PathError

namespace Tree

def isDirectory : Tree → Bool
  | file _ => false
  | directory _ => true

def file? : Tree → Option SuiteFile
  | file f => some f
  | directory _ => none

def entries : Tree → List (String × Tree)
  | file _ => []
  | directory es => es

/-- What lies at the end of a way that only leads downward. -/
def at? : List String → Tree → Option Tree
  | [], t => some t
  | name :: names, t => (t.entries.lookup name).bind (at? names)

/-- Follows the parts of a path from a place in the tree, also upward. Every part is looked up in a
directory. -/
def walk (t : Tree) (place : List String) : List String → Except PathError (List String)
  | [] => .ok place
  | part :: parts =>
    match t.at? place with
    | some (directory es) =>
      if part = ".." then walk t place.dropLast parts
      else if (es.lookup part).isSome then walk t (place ++ [part]) parts
      else .error .missing
    | some (file _) => .error .notDirectory
    | none => .error .missing
  termination_by structural parts => parts

def find? (t : Tree) (p : Path) : Option Tree :=
  match t.walk [] p.parts with
  | .ok place => t.at? place
  | .error _ => none

def putEntry (name : String) (t : Tree) : List (String × Tree) → List (String × Tree)
  | [] => [(name, t)]
  | (other, u) :: rest =>
    if name = other then (name, t) :: rest
    else if name < other then (name, t) :: (other, u) :: rest
    else (other, u) :: putEntry name t rest

/-- Puts a tree at the end of a way downward; directories on the way are made. -/
def put : Tree → List String → Tree → Tree
  | _, [], new => new
  | file f, _ :: _, _ => file f
  | directory es, name :: names, new =>
    directory (putEntry name (put ((es.lookup name).getD (directory [])) names new) es)

def makeDirectory (t : Tree) (place : List String) : Tree :=
  if (t.at? place).isSome then t else t.put place (directory [])

end Tree

end SuiteLint
