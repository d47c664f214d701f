import SuiteLint.Project.Tree
import SuiteLint.Suite.Stored
import SuiteLint.Text.Line
import SuiteLint.Toml.Reader

/-! Stored documents in a tree: those of a file lie in another one beside it, whose name ends in
`.toml`, under a key for each kind. -/
namespace SuiteLint

def FileKind.key : FileKind → String
  | init => "init"
  | resource => "resource"
  | general => "general"

def SuiteFile.ofStored (bytes stored : List UInt8) : SuiteFile where
  bytes := bytes
  read kind := do
    let text ← Text.decode stored
    let table ← Toml.read (Text.plainLineFeeds text)
    let value ← table.lookup kind.key
    Stored.document? value

namespace Tree

mutual

def withStored : Tree → Tree
  | file f => file f
  | directory es => directory (entriesWithStored es es)

def entriesWithStored (siblings : List (String × Tree)) : List (String × Tree) → List (String × Tree)
  | [] => []
  | (name, t) :: es =>
    let filled := match t with
      | file f =>
        match (siblings.lookup (name ++ ".toml")).bind file? with
        | some stored => file (.ofStored f.bytes stored.bytes)
        | none => file f
      | directory inner => withStored (directory inner)
    (name, filled) :: entriesWithStored siblings es

end

end Tree

end SuiteLint
