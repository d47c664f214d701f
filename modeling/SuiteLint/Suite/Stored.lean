import SuiteLint.Suite.Document
import SuiteLint.Toml

/-! Documents stored as nested lists: what stands first in a list is the label of the thing that the
rest describes, and an empty list stands for a part that is left out. -/
namespace SuiteLint.Stored

open Toml (Value)

def token? : Value → Option Token
  | .list [.text kind, .text value, .integer line, .integer column] =>
    some ⟨.ofLabel kind, value, line, column⟩
  | _ => none

def statement? : Value → Option Statement
  | .list [.text label, .list tokens, .list errors] => do
    let kind ← StatementKind.ofLabel? label
    return ⟨kind, ← tokens.mapM token?, ← errors.mapM Value.text?⟩
  | _ => none

/-- A part that may be left out. -/
def part? (read : Value → Option α) : Value → Option (Option α)
  | .list [] => some none
  | v => (read v).map some

def simpleBlock? : String → Option BlockKind
  | "TestCase" => some .testCase
  | "Keyword" => some .keyword
  | _ => none

mutual

def node? : Value → Option Node
  | .list [.text "For", header, .list body, close, .list errors] => do
    return .block .for_ (← statement? header) (← nodes? body) none (← part? statement? close)
      (← errors.mapM Value.text?)
  | .list [.text "ForLoop", header, .list body, close] => do
    return .block .forLoop (← statement? header) (← nodes? body) none (← part? statement? close) []
  | .list [.text "If", header, .list body, orelse, close, .list errors] => do
    return .block .if_ (← statement? header) (← nodes? body) (← branch? orelse)
      (← part? statement? close) (← errors.mapM Value.text?)
  | .list [.text label, header, .list body] =>
    match simpleBlock? label with
    | some kind => do return .block kind (← statement? header) (← nodes? body) none none []
    | none => (statement? (.list [.text label, header, .list body])).map .leaf
  | _ => none

def branch? : Value → Option (Option Node)
  | .list [] => some none
  | v => (node? v).map some

def nodes? : List Value → Option (List Node)
  | [] => some []
  | v :: vs => do return (← node? v) :: (← nodes? vs)

end

def sectionKind? : String → Option SectionKind
  | "SettingSection" => some .settings
  | "VariableSection" => some .variableRows
  | "TestCaseSection" => some .testCases
  | "KeywordSection" => some .keywords
  | "CommentSection" => some .comments
  | _ => none

def section? : Value → Option Section
  | .list [.text label, header, .list body] => do
    return ⟨← sectionKind? label, ← part? statement? header, ← nodes? body⟩
  | _ => none

def document? : Value → Option Document
  | .list [.text "File", .list sections] => do return ⟨none, ← sections.mapM section?⟩
  | _ => none

end SuiteLint.Stored
