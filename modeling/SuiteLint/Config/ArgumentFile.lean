import SuiteLint.Error
import SuiteLint.Project
import SuiteLint.Text.Line

/-! Argument files: command lines kept in a file, an option with its value on each line. -/
namespace SuiteLint.ArgumentFile

def lineArguments (line : List Char) : List String :=
  if (Text.trim line).head? = some '#' then []
  else
    let (first, rest) := Text.cutAt ' ' line
    (((first :: rest.toList).map Text.trim).filter (!·.isEmpty)).map String.ofList

def isRequest (word : String) : Bool := word = "-A" || word = "--argumentfile"

def arguments (name : String) (lines : List (List Char)) : Except LintError (List String) :=
  let found := lines.flatMap lineArguments
  if found.any isRequest then .error (.nestedArgumentFile name) else .ok found

/-- Reads an argument file; an empty name stands for no arguments. -/
def load (project : Project) (name : String) : Except LintError (List String) :=
  if name.isEmpty then .ok []
  else match project.find? (Path.ofString name) with
    | none => .error (.missingArgumentFile name)
    | some (.directory _) => .error .unreadable
    | some (.file f) =>
      match Text.fileLines f.bytes with
      | none => .error .undecodable
      | some lines => arguments name lines

/-- Puts the contents of argument files in the place of the requests for them. The second part of the
answer is the last file that held any arguments. -/
def splice (project : Project) : List String → Except LintError (List String × Option String)
  | [] => .ok ([], none)
  | [word] => if isRequest word then .error (.missingArgumentFile "") else .ok ([word], none)
  | word :: name :: words =>
    if isRequest word then do
      let found ← load project name
      let (rest, origin) ← splice project words
      return (found ++ rest, origin.or (if found.isEmpty then none else some name))
    else do
      let (rest, origin) ← splice project (name :: words)
      return (word :: rest, origin)

end SuiteLint.ArgumentFile
