import SuiteLint.Check.Finding
import SuiteLint.Name

/-! Calls of keywords: calls without a keyword (0403), calls that are settings by intent (0402), and calls that
an IF can stand for (0908). -/
namespace SuiteLint.Check.KeywordCall

def dropBlank : List Char → List Char
  | c :: rest => if Text.isBlank c then rest else c :: rest
  | [] => []

/-- A word in brackets at the front, with at most one blank on either side of it: the whole and the
word. -/
def bracketed? (s : List Char) : Option (List Char × List Char) :=
  match s with
  | '[' :: rest =>
    let inner := dropBlank rest
    let word := inner.takeWhile Text.isWord
    let after := dropBlank (inner.drop word.length)
    match word, after with
    | _ :: _, ']' :: tail => some (s.take (s.length - tail.length), word)
    | _, _ => none
  | _ => none

def settingNames : List String :=
  ["arguments", "documentation", "setup", "timeout", "teardown", "template", "tags"]

def inSetting (s : Statement) : Except Breakdown (List Finding) :=
  match bracketed? (s.keyword?.getD "").toList with
  | some (whole, word) =>
    if settingNames.contains (String.ofList (Text.lower word)) then do
      let t ← firstData s
      return [found .notEnoughWhitespaceAfterSetting [.string (String.ofList whole)]
        (anchor s.line) (t.column + 1)]
    else .ok []
  | none => .ok []

def checkSettings (d : Document) : Except Breakdown (List Finding) :=
  gather inSetting (d.statementsOf .keywordCall)

def inNameless (s : Statement) : Except Breakdown (List Finding) :=
  if s.keyword?.isSome then .ok []
  else do
    let t ← firstData s
    return [found .missingKeywordName [] s.line (t.column + 1)]

def checkNames (d : Document) : Except Breakdown (List Finding) :=
  gather inNameless (d.statementsOf .keywordCall)

def inConditional (s : Statement) : List Finding :=
  match s.token? [.keyword] with
  | some t =>
    if ["runkeywordif", "runkeywordunless"].contains (Name.normalized t.value) then
      [found .ifCanBeUsed [.string t.value] (anchor s.line) (t.column + 1)]
    else []
  | none => []

def checkConditions (d : Document) : List Finding :=
  (d.statementsOf .keywordCall).flatMap inConditional

end SuiteLint.Check.KeywordCall
