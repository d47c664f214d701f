import SuiteLint.Check.Finding
import SuiteLint.Name
import SuiteLint.Suite.Fault

/-! Faults that the reader of the file found, sorted by what is wrong (0401, 0405, 0407 to 0413). -/
namespace SuiteLint.Check.ParsingError

def plain (rule : RuleKey) (args : List String) (n : Node) : List Finding :=
  [found rule (args.map .string) (anchor n.line) 1]

def inBlock (rule : RuleKey) (n : Node) (error : String) : Except Breakdown (List Finding) :=
  let s := match n with
    | .leaf s => s
    | .block _ header .. => header
  match s.mark?.bind fun kind => s.token? [kind] with
  | some t =>
    .ok [found rule [.string (Fault.withoutLast (Fault.unannounced error))] (anchor t.line)
      (t.column + 1)]
  | none => .error .absentPart

/-- A continuation mark of two or four dots, or without blanks after it. -/
def continuationMark (n : Node) (name : List Char) : Except Breakdown (List Finding) :=
  let col : Int := match Text.find ['.'] name with
    | some dots => dots + 1
    | none => 0
  let place (rule : RuleKey) : List Finding := [found rule [] (anchor n.line) col]
  match Text.trimLeft name with
  | [_, _] => .ok (place .invalidContinuationMark)
  | _ :: _ :: c :: rest =>
    if Text.isBlank c then .ok (place .invalidContinuationMark)
    else if rest.isEmpty then .ok []
    else if "....".toList.isPrefixOf (Text.trimLeft name) then .ok (place .invalidContinuationMark)
    else .ok (place .notEnoughWhitespaceAfterNewlineMarker)
  | _ => .error .absentItem

/-- An argument that is written wrongly, at the argument with that name. -/
def argument (n : Node) (error : String) : Except Breakdown (List Finding) :=
  match Fault.quotedPart? error.toList with
  | none => .ok []
  | some name =>
    match n with
    | .block .. => .error .absentPart
    | .leaf s =>
      match (s.tokensOf .argument).find? fun t => (Text.cutAt '=' t.value.toList).1 == name with
      | some t =>
        .ok [found .invalidArgument [.string (Fault.withoutLast error)] (anchor t.line)
          (t.column + 1)]
      | none => .ok (plain .parsingError [error] n)

def testCaseSettings : String :=
  "[Documentation], [Tags], [Setup], [Teardown], [Template], [Timeout]"

def keywordSettings : String :=
  "[Documentation], [Tags], [Arguments], [Return], [Teardown], [Timeout]"

def setting (n : Node) (error : String) : Except Breakdown (List Finding) :=
  match Fault.unknownSetting? error with
  | none | some [] => .ok []
  | some (c :: rest) =>
    let name := c :: rest
    let shown := String.ofList name
    if "..".toList.isPrefixOf (Text.trimLeft name) then
      match n with
      | .block .. => .error .absentPart
      | .leaf s => do
        let t ← firstData s
        continuationMark n t.value.toList
    else if shown = "Arguments" || shown = "Return" then
      .ok (plain .settingNotSupported [shown, "Test Case", testCaseSettings] n)
    else if shown = "Setup" || shown = "Template" then
      .ok (plain .settingNotSupported [shown, "Keyword", keywordSettings] n)
    else match Fault.suiteSettingAt? name with
      | some title =>
        .ok (if Text.isBlank c then [] else plain .notEnoughWhitespaceAfterSuiteSetting [title] n)
      | none =>
        let text := Fault.unannounced (Fault.unbroken error)
        .ok (plain .nonExistingSetting
          [if text.toList.getLast? = some '.' then Fault.withoutLast text else text] n)

def variableName (n : Node) (error : String) : Except Breakdown (List Finding) :=
  match Fault.invalidVariable? error with
  | none | some [] => .ok []
  | some (c :: rest) =>
    if "..".toList.isPrefixOf (Text.trimLeft (c :: rest)) then continuationMark n (c :: rest)
    else if Text.isBlank c then .ok []
    else match n with
      | .block .. => .error .absentPart
      | .leaf s =>
        match s.token? [.variableName] with
        | some t =>
          match Name.findVariables t.value.toList with
          | (0, _) :: _ =>
            .ok [found .notEnoughWhitespaceAfterVariable [] (anchor t.line) (t.column + 1)]
          | _ => .ok (plain .parsingError [Fault.unbroken error] n)
        | none => .ok (plain .parsingError [Fault.unbroken error] n)

def handle (n : Node) (error : String) : Except Breakdown (List Finding) :=
  if error.isEmpty then .ok []
  else if Fault.mentions error "Invalid argument syntax" then argument n error
  else if Fault.mentions error "Non-existing setting" then setting n error
  else if Fault.mentions error "Invalid variable name" then variableName n error
  else if Fault.mentions error "IF has" then inBlock .invalidIf n error
  else if Fault.mentions error "FOR loop has" then inBlock .invalidForLoop n error
  else .ok (plain .parsingError [Fault.unbroken error] n)

def inNode (n : Node) : Except Breakdown (List Finding) :=
  match n with
  | .leaf s =>
    if s.kind = .keywordCall then
      .ok (if "...".toList.isPrefixOf (s.keyword?.getD "").toList then
        plain .notEnoughWhitespaceAfterNewlineMarker [] n else [])
    else gather (handle n) s.errors
  | .block .for_ _ _ _ _ errors | .block .if_ _ _ _ _ errors => gather (handle n) errors
  | .block .. => .ok []

def check (d : Document) : Except Breakdown (List Finding) := gather inNode d.visited

end SuiteLint.Check.ParsingError
