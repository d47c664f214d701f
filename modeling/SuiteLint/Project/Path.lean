import SuiteLint.Text.Case
import SuiteLint.Text.Glob

/-! Paths: names of files and directories with slashes between their parts. -/
namespace SuiteLint

/-- The parts of a path after its root, which is empty for a relative path. -/
structure Path where
  root : String
  parts : List String
  deriving DecidableEq

namespace Path

def rootOf : List Char → String
  | '/' :: '/' :: '/' :: _ => "/"
  | '/' :: '/' :: _ => "//"
  | '/' :: _ => "/"
  | _ => ""

def ofString (s : String) : Path :=
  ⟨rootOf s.toList,
    ((Text.splitAt '/' s.toList).map String.ofList).filter fun part => part ≠ "" ∧ part ≠ "."⟩

def toString (p : Path) : String :=
  if p.root.isEmpty && p.parts.isEmpty then "." else p.root ++ "/".intercalate p.parts

def isAbsolute (p : Path) : Bool := !p.root.isEmpty

def name (p : Path) : String := p.parts.getLast?.getD ""

def parent (p : Path) : Path := { p with parts := p.parts.dropLast }

/-- A path below another one, unless it stands alone. -/
def join (p q : Path) : Path :=
  if q.isAbsolute then q else { p with parts := p.parts ++ q.parts }

def splitName (name : String) : String × String :=
  let chars := name.toList
  let ending := (chars.reverse.takeWhile (· != '.')).reverse
  if chars.contains '.' && 0 < ending.length && ending.length + 1 < chars.length then
    (String.ofList (chars.take (chars.length - ending.length - 1)), "." ++ String.ofList ending)
  else (name, "")

def stem (p : Path) : String := (splitName p.name).1

def suffix (p : Path) : String := (splitName p.name).2

/-- Resolves parts that lead upward, with the parts read so far, nearest first. Above a root there is
nothing. -/
def resolve (rooted : Bool) (done : List String) : List String → List String
  | [] => done.reverse
  | part :: parts =>
    if part = ".." then
      match done with
      | above :: rest => if above = ".." then resolve rooted (part :: done) parts else resolve rooted rest parts
      | [] => if rooted then resolve rooted [] parts else resolve rooted [part] parts
    else resolve rooted (part :: done) parts

def normalized (p : Path) : Path := { p with parts := resolve p.isAbsolute [] p.parts }

def dropShared : List String → List String → List String × List String
  | a :: as, b :: bs => if a = b then dropShared as bs else (a :: as, b :: bs)
  | as, bs => (as, bs)

def way (start goal : Path) : Path :=
  let (up, down) := dropShared start.normalized.parts goal.normalized.parts
  ⟨"", up.map (fun _ => "..") ++ down⟩

def components (p : Path) : List String :=
  if p.isAbsolute then p.root :: p.parts else p.parts

def globsAccept : List String → List String → Bool
  | name :: names, glob :: globs =>
    (Text.Glob.parse glob.toList).accepts name.toList && globsAccept names globs
  | _, _ => true

/-- Whether a path fits a pattern, which is compared from the right; a pattern with a root has to
fit the whole path. There is no answer for an empty pattern. -/
def fits? (p : Path) (pattern : String) : Option Bool :=
  let q := ofString pattern
  if q.components.isEmpty then none
  else if q.isAbsolute then
    some (q.root = p.root && q.components.length = p.components.length &&
      globsAccept p.parts.reverse q.parts.reverse)
  else
    some (q.parts.length ≤ p.components.length &&
      globsAccept p.components.reverse q.parts.reverse)

def fitsAny? (p : Path) : List String → Option Bool
  | [] => some false
  | pattern :: patterns =>
    match p.fits? pattern with
    | none => none
    | some true => some true
    | some false => p.fitsAny? patterns

def hasType (p : Path) (types : List String) : Bool :=
  !p.suffix.isEmpty && types.contains (String.ofList (Text.lower p.suffix.toList))

/-- Fills in the places for the separator, the directory of a file, and the working directory in
the path of an import. -/
def fillIn (path directory working : String) : String :=
  let put (name new : String) (s : List Char) :=
    Text.replace ("$\x7b" ++ name ++ "\x7d").toList new.toList s
  String.ofList (put "EXECDIR" working (put "CURDIR" directory (put "/" "/" path.toList)))

end Path

end SuiteLint
