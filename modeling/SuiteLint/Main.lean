import SuiteLint.Project.Store
import SuiteLint.Run

/-! The program: it reads the project around the working directory, runs, and writes what the run
leaves behind. -/
namespace SuiteLint.Program

/-- Reads a file or a directory with all that lies below it; none if there is nothing. -/
partial def readTree (path : String) : IO (Option Tree) := do
  try
    let real ← IO.FS.realPath path
    if ← real.isDir then
      let mut entries : List (String × Tree) := []
      for entry in ← real.readDir do
        if entry.fileName = ".git" then entries := Tree.putEntry ".git" (.directory []) entries
        else if let some t ← readTree (path ++ "/" ++ entry.fileName) then
          entries := Tree.putEntry entry.fileName t entries
      return some (.directory entries)
    else if ← real.pathExists then
      return some (.file (.plain (← IO.FS.readBinFile path).toList))
    else return none
  catch _ => return none

/-- Adds what lies at an absolute path to a tree. -/
def graft (t : Tree) (p : Path) : IO Tree := do
  match ← readTree p.toString with
  | some found => return t.put p.normalized.parts found
  | none => return t

/-- The project around the working directory: the files with settings above it, all that lies below
it, and what the words of the command line name. -/
def readProject (words : List String) : IO Project := do
  let cwd := Path.ofString (← IO.currentDir).toString
  let marks := (Project.ancestors cwd).reverse.flatMap fun d =>
    [".git", ".robocop", "pyproject.toml"].map fun name => d.join ⟨"", [name]⟩
  let named := words.map fun word => cwd.join (Path.ofString word)
  let mut tree := (Tree.directory []).makeDirectory cwd.parts
  for p in marks ++ named.filter (·.parts ≠ []) ++ [cwd] do
    tree ← graft tree p
  return ⟨tree.withStored, cwd, [], [], Toml.read⟩

def writeFiles (project : Project) : IO Unit :=
  project.written.forM fun place => do
    match (project.tree.at? place).bind Tree.file? with
    | some f => IO.FS.writeBinFile (Path.mk "/" place).toString ⟨f.bytes.toArray⟩
    | none => return

/-- The libraries of the framework. -/
def libraries : List String :=
  ["BuiltIn", "Collections", "DateTime", "Dialogs", "Easter", "OperatingSystem", "Process",
   "Remote", "Reserved", "Screenshot", "String", "Telnet", "XML"]

def thousandths (n : Nat) : String :=
  toString (n / 1000) ++ "." ++ String.ofList ((toString (1000 + n % 1000)).toList.drop 1)

def run (words : List String) : IO UInt32 := do
  let start ← IO.monoMsNow
  let project ← readProject words
  let seconds := thousandths ((← IO.monoMsNow) - start)
  let (session, ending) := Run.ofRequest { Host.plain with libraries := libraries }
    (.ofWords words) seconds ⟨project, []⟩
  session.printed.forM (IO.println ·)
  writeFiles session.project
  match ending with
  | .quit status => return UInt32.ofNat (status.getD 0)
  | .misused e =>
    IO.eprintln ("robocop: error: " ++ e.message)
    return 2
  | .failed e =>
    IO.eprintln e.message
    return 1
  | .issues _ => return 0

end SuiteLint.Program

def main (words : List String) : IO UInt32 := SuiteLint.Program.run words
