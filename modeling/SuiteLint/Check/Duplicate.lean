import SuiteLint.Check.Finding
import SuiteLint.Name

/-! Names that are used more than once (0801 to 0807, 0811, 0812). -/
namespace SuiteLint.Check.Duplicate

def firsts {α : Type} (key : α → String) (seen : List String) : List α → List α
  | [] => []
  | x :: rest =>
    if seen.contains (key x) then firsts key seen rest else x :: firsts key (key x :: seen) rest

def repeats {α : Type} (key : α → String) (xs : List α) : List (α × α) :=
  (firsts key [] xs).flatMap fun x => ((xs.filter (key · = key x)).drop 1).map fun y => (x, y)

def report {α : Type} (rule : RuleKey) (name : α → Datum) (line : α → Int)
    (pairs : List (α × α)) : List Finding :=
  pairs.map fun (first, again) =>
    found rule [name again, .integer (line first)] (anchor (line again)) 1

def definitions (rule : RuleKey) (kind : BlockKind) (d : Document) : List Finding :=
  report rule (fun n => nameDatum n.name?) Node.line
    (repeats (fun n => Name.normalized (n.name?.getD "")) (d.blocksOf kind))

def statements (rule : RuleKey) (key : Statement → String) (ss : List Statement) : List Finding :=
  report rule (fun s => nameDatum s.name?) Statement.line (repeats key ss)

def hasName (s : Statement) : Bool := s.name?.any (!·.isEmpty)

def variableKey (s : Statement) : String :=
  Name.normalized (Name.withoutChars (s.name?.getD "") ['$', '{', '}', '@', '&'])

def importKey (s : Statement) : String :=
  s.name?.getD "" ++ String.join ((s.dataTokens.drop 2).map (·.value))

def isPlainVariablesImport (s : Statement) : Bool :=
  hasName s && ((s.name?.getD "").endsWith ".py" || (s.token? [.argument]).isNone)

def repeatedTokens (name : Token → String) (seen : List String) : List Token → List Token
  | [] => []
  | t :: ts =>
    if seen.contains (name t) then t :: repeatedTokens name seen ts
    else repeatedTokens name (name t :: seen) ts

def argumentName (t : Token) : String := String.ofList (Text.cutAt '=' t.value.toList).1

def inStatement (s : Statement) : List Finding :=
  match s.kind with
  | .keywordCall =>
    (repeatedTokens (fun t => Name.normalizedVariable t.value) [] (s.tokensOf .assign)).map fun t =>
      found .duplicatedAssignedVarName [.string t.value] t.line (t.column + 1)
  | .arguments =>
    (repeatedTokens (fun t => Name.normalizedVariable (argumentName t)) []
        (s.tokensOf .argument)).map fun t =>
      found .duplicatedArgumentName [.string (argumentName t)] t.line (t.column + 1)
  | _ => []

def metadataKey (s : Statement) : String := s.name?.getD "" ++ s.longText?.getD ""

def check (modern : Bool) (d : Document) : Except Breakdown (List Finding) :=
  let rows := d.statementsOf .variableRow
  let entries := (d.statementsOf .metadata).filter (·.name?.isSome)
  if rows.any (·.name?.isNone) || entries.any (·.longText?.isNone) then .error .absentPart
  else .ok (
    d.statements.flatMap inStatement ++
    definitions .duplicatedTestCase .testCase d ++
    definitions .duplicatedKeyword .keyword d ++
    statements .duplicatedVariable variableKey
      (rows.filter fun s => hasName s && !isFaulty modern s) ++
    statements .duplicatedResource (fun s => s.name?.getD "")
      ((d.statementsOf .resourceImport).filter hasName) ++
    statements .duplicatedLibrary importKey ((d.statementsOf .libraryImport).filter hasName) ++
    statements .duplicatedMetadata metadataKey entries ++
    statements .duplicatedVariablesImport importKey
      ((d.statementsOf .variablesImport).filter isPlainVariablesImport))

end SuiteLint.Check.Duplicate
