import SuiteLint.Check.Finding
import SuiteLint.Disabler
import SuiteLint.Text.Tab

/-! Raw lines: their length (0508), blanks at their ends (1001), and the end of the file (1002, 1010). -/
namespace SuiteLint.Check.Line

def afterSigns? : List Char → Option (List Char)
  | '#' :: ' ' :: rest => some ((afterSigns? rest).getD rest)
  | _ => none

/-- What follows a `# robocop:` or `# noqa` comment at the front of a text. -/
def afterDisabler? (s : List Char) : Option (List Char) := do
  let body ← afterSigns? s
  match Text.after? "noqa".toList body with
  | some rest => some rest
  | none =>
    let rest ← Text.after? "robocop:".toList body
    let rest := match rest with
      | ' ' :: more => more
      | more => more
    let rest ← (Text.after? "disable".toList rest).or (Text.after? "enable".toList rest)
    let names := match rest with
      | '=' :: more => more
      | more => more
    return names.dropWhile Disabler.isRuleNameChar

def dropDisablers (skip : Nat) : List Char → List Char
  | [] => []
  | c :: rest =>
    match skip with
    | skip + 1 => dropDisablers skip rest
    | 0 =>
      match afterDisabler? (c :: rest) with
      | some tail => dropDisablers (rest.length - tail.length) rest
      | none => c :: dropDisablers 0 rest

def measure (line : List Char) : Nat :=
  (Text.expandTabs (Text.trimRight (dropDisablers 0 line))).length

def numbered {α : Type} (xs : List α) : List (α × Nat) := xs.zipIdx 1

def checkLength (vs : Values) (lines : List (List Char)) : List Finding :=
  let most := vs.integer (RuleKey.lineTooLong.slot "line_length")
  let ignored := vs.pattern (RuleKey.lineTooLong.slot "ignore_pattern")
  (numbered lines).flatMap fun (line, number) =>
    if !ignored.foundIn line && most < measure line then
      [found .lineTooLong [.integer (measure line), .integer most] number 1]
    else []

def isFeed (c : Char) : Bool := c == '\n' || c == '\r'

def trailing (line : List Char) (number : Nat) : List Finding :=
  let kept := Text.dropEndWhile isFeed line
  match kept.getLast? with
  | some c =>
    if c == ' ' || c == '\t' then [found .trailingWhitespace [] number kept.length] else []
  | none => []

/-- The end of a file: one line feed after the last line that is not blank. -/
def atEnd (lines : List (List Char)) : List Finding :=
  match lines.reverse with
  | [] => []
  | last :: before =>
    if last == ['\n'] || last == ['\r'] || last == ['\r', '\n'] then
      [found .tooManyTrailingBlankLines [] (lines.length + 1) 1]
    else if Text.isBlankText last then
      match before with
      | line :: _ =>
        if Text.isBlankText line then [found .tooManyTrailingBlankLines [] lines.length 1] else []
      | [] => []
    else if last.getLast?.any isFeed then []
    else [found .missingTrailingBlankLine [] lines.length 1]

def checkEnds (lines : List (List Char)) : List Finding :=
  ((numbered lines).flatMap fun (line, number) => trailing line number) ++ atEnd lines

end SuiteLint.Check.Line
