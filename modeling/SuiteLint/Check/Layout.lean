import SuiteLint.Check.Indent
import SuiteLint.Suite.Fault

/-! Separators (1006), continuation marks (1011, 1015), and what starts a row of the sections for settings
(1016) and variables (1014). -/
namespace SuiteLint.Check.Layout

/-- Whether separators use both tabulators and blanks. -/
def mixes (tabs blanks : Bool) : List Token → Bool
  | [] => false
  | t :: ts =>
    let tabs := tabs || t.value.toList.contains '\t'
    let blanks := blanks || t.value.toList.contains ' '
    (tabs && blanks) || mixes tabs blanks ts

def checkSeparators (d : Document) : List Finding :=
  if mixes false false (d.statements.flatMap fun s => s.tokensOf .separator) then
    [found .mixedTabsAndSpaces [] 1 1]
  else []

/-- The width between a mark of three dots below a token and the first argument after that token;
zero if there is no argument. -/
def firstArgumentIndent (kind : TokenKind) (seen : Option Int) : List Token → Int
  | [] => 0
  | t :: ts =>
    match seen with
    | none =>
      firstArgumentIndent kind (if t.kind = kind then some ((t.value.length : Int) - 3) else none) ts
    | some width =>
      if t.kind = .separator then firstArgumentIndent kind (some (width + Text.width t.value)) ts
      else if t.kind = .argument then width
      else firstArgumentIndent kind seen ts

/-- Reads a continued line: its mark stands under the start of the statement, and its first value
under that of the line before. Gives the column for the next lines. -/
def inLine (start : Nat) (column : Int) (indent : Nat) : List Token → List Finding × Int
  | [] => ([], column)
  | t :: ts =>
    if t.kind = .separator then inLine start column (indent + Text.width t.value) ts
    else if t.kind = .continuation then
      if indent ≠ start then ([found .misalignedContinuation [] t.line (t.column + 1)], column)
      else inLine start column 0 ts
    else if t.kind ≠ .eol && !Text.isBlankText t.value.toList then
      if column = 0 then ([], indent)
      else
        (if column = indent then []
          else [found .misalignedContinuationRow [] (anchor t.line) (t.column + 1)], column)
    else inLine start column indent ts

def inLines (start : Nat) (column : Int) : List (List Token) → List Finding
  | [] => []
  | line :: lines =>
    let (here, column') := inLine start column 0 line
    here ++ inLines start column' lines

def inStatement (s : Statement) : Except Breakdown (List Finding) :=
  if s.dataTokens.isEmpty then .ok []
  else match s.mark?, s.lines with
    | none, _ => .error .absentPart
    | some _, [] => .ok []
    | some kind, first :: more =>
      .ok (inLines (Indent.leadingWidth first)
        (if kind = .tags then firstArgumentIndent .tags none first else 0) more)

def checkContinuations (d : Document) : Except Breakdown (List Finding) :=
  gather inStatement d.statements

def leadingBlanks (s : List Char) : Nat := s.length - (Text.trimLeft s).length

def inVariableRow (n : Node) : Except Breakdown (List Finding) :=
  match n with
  | .block .. => .error .absentPart
  | .leaf s =>
    match s.dataTokens with
    | [] => .ok []
    | t :: _ =>
      .ok (if t.kind = .variableName && (t.value.isEmpty || t.value.toList.head? = some ' ') then
        let col : Int := match t.value.isEmpty, s.token? [.argument] with
          | true, some a => a.column + 1
          | _, _ => leadingBlanks t.value.toList + 1
        [found .variableShouldBeLeftAligned [] t.line col] else [])

/-- A setting that the reader did not know because of blanks before it. -/
def inSettingFault (n : Node) (error : String) : Except Breakdown (List Finding) :=
  match Fault.unknownSetting? error with
  | none => .ok []
  | some [] =>
    match n with
    | .block .. => .error .absentPart
    | .leaf s =>
      .ok (match s.token? [.comment] with
        | some t =>
          if (Fault.suiteSettings.map (·.1.toList)).contains (Fault.settingKey t.value.toList) then
            [found .suiteSettingShouldBeLeftAligned [] (anchor t.line) (t.column + 1)]
          else []
        | none => [])
  | some (c :: rest) =>
    .ok (if Text.isBlank c && (Fault.suiteSettingAt? (c :: rest)).isSome then
      [found .suiteSettingShouldBeLeftAligned [] (anchor n.line) (leadingBlanks (c :: rest) + 1)]
    else [])

def inSettingRow (n : Node) : Except Breakdown (List Finding) :=
  gather (inSettingFault n) (n.errors.filter (Fault.mentions · "Non-existing setting"))

def inSection (s : Section) : Except Breakdown (List Finding) :=
  match s.kind with
  | .variableRows => gather inVariableRow s.body
  | .settings => gather inSettingRow s.body
  | _ => .ok []

def checkAlignment (d : Document) : Except Breakdown (List Finding) := gather inSection d.sections

end SuiteLint.Check.Layout
