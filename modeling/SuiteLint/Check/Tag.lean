import SuiteLint.Check.Finding

/-! Tags: their names (0601 to 0603), and [Tags], Force Tags and Default Tags (0605 to 0608). -/
namespace SuiteLint.Check.Tag

def allowedReserved : List String :=
  ["robot:no-dry-run", "robot:continue-on-failure", "robot:recursive-continue-on-failure"]

def judge (t : Token) : List Finding :=
  let value := t.value.toList
  let place (rule : RuleKey) : List Finding := [found rule [] t.line (t.column + 1)]
  (if value.contains ' ' then place .tagWithSpace else []) ++
  (if Text.has "OR".toList value || Text.has "AND".toList value then place .tagWithOrAnd else []) ++
  if "robot:".toList.isPrefixOf value && !allowedReserved.contains t.value then
    place .tagWithReserved
  else []

def tagsOf (s : Statement) : List Token := s.dataTokens.drop 1

def isText (t : Token) : Bool := t.kind.isData && t.kind ≠ .documentation

def isTagLine (line : List Token) : Bool :=
  match line.filter isText with
  | t :: _ => Text.lower t.value.toList == "tags:".toList
  | [] => false

def withoutCommas (t : Token) : Token :=
  { t with value := String.ofList (Text.dropEndWhile (· == ',') t.value.toList) }

/-- A documentation of a keyword, whose last line may list tags: what is wrong with these, and the
statement with its tags free of commas. -/
def inDocumentation (s : Statement) : Except Breakdown (List Finding × Statement) :=
  match s.lines.reverse with
  | [] => .error .noLines
  | last :: before =>
    if isTagLine last then
      let cleaned := last.map fun t => if isText t then withoutCommas t else t
      .ok ((cleaned.filter isText).flatMap judge,
        { s with tokens := before.reverse.flatten ++ cleaned })
    else .ok ([], s)

def inStatement (inKeyword : Bool) (s : Statement) :
    Except Breakdown (List Finding × Statement) :=
  match s.kind with
  | .forceTags | .defaultTags | .tags => .ok ((tagsOf s).flatMap judge, s)
  | .documentation => if inKeyword then inDocumentation s else .ok ([], s)
  | _ => .ok ([], s)

def inStatement? (inKeyword : Bool) : Option Statement →
    Except Breakdown (List Finding × Option Statement)
  | none => .ok ([], none)
  | some s => do
    let (here, s') ← inStatement inKeyword s
    return (here, some s')

mutual

/-- Looks at a node: what is found, the node with its tags free of commas, and whether the next node
counts as inside a keyword. The end of a keyword ends this also for a keyword around it. -/
def inNode (inKeyword : Bool) : Node → Except Breakdown (List Finding × Node × Bool)
  | .leaf s => do
    let (here, s') ← inStatement inKeyword s
    return (here, .leaf s', inKeyword)
  | .block kind header body orelse close errors => do
    let flag := inKeyword || kind = .keyword
    let (f1, header') ← inStatement flag header
    let (f2, body', flag) ← inNodes flag body
    let (f3, orelse', flag) ← inBranch flag orelse
    let (f4, close') ← inStatement? flag close
    return (f1 ++ f2 ++ f3 ++ f4, .block kind header' body' orelse' close' errors,
      flag && kind ≠ .keyword)

def inNodes (inKeyword : Bool) : List Node → Except Breakdown (List Finding × List Node × Bool)
  | [] => .ok ([], [], inKeyword)
  | n :: ns => do
    let (f1, n', flag) ← inNode inKeyword n
    let (f2, ns', flag) ← inNodes flag ns
    return (f1 ++ f2, n' :: ns', flag)

def inBranch (inKeyword : Bool) :
    Option Node → Except Breakdown (List Finding × Option Node × Bool)
  | none => .ok ([], none, inKeyword)
  | some n => do
    let (f1, n', flag) ← inNode inKeyword n
    return (f1, some n', flag)

end

def inSections (inKeyword : Bool) :
    List Section → Except Breakdown (List Finding × List Section × Bool)
  | [] => .ok ([], [], inKeyword)
  | s :: ss => do
    let (f1, header') ← inStatement? inKeyword s.header
    let (f2, body', flag) ← inNodes inKeyword s.body
    let (f3, ss', flag) ← inSections flag ss
    return (f1 ++ f2 ++ f3, { s with header := header', body := body' } :: ss', flag)

/-- The names of all tags: what is found, the document with the tags in its documentation free of
commas, and whether the next document starts inside a keyword. -/
def checkNames (inKeyword : Bool) (d : Document) :
    Except Breakdown (List Finding × Document × Bool) := do
  let (here, sections, flag) ← inSections inKeyword d.sections
  return (here, { d with sections := sections }, flag)

/-- What stays of the tags when the next document is read: whether sections count as those of keywords, and
the line of the last Default Tags. -/
structure Trace where
  inKeywords : Bool
  defaultsLine : Option Int

def Trace.blank : Trace := ⟨false, none⟩

structure Scope where
  tests : Nat
  tagLists : List (List String)
  forced : List String
  forcedLine : Option Int
  defaults : List String
  trace : Trace

def Scope.start (t : Trace) : Scope := ⟨0, [], [], none, [], t⟩

def Scope.within (scope : Scope) (inKeywords : Bool) : Scope :=
  { scope with trace := { scope.trace with inKeywords := inKeywords } }

def inTags (scope : Scope) (s : Statement) : List Finding :=
  let advice := if scope.trace.inKeywords then ""
    else ". Consider using NONE if you want to overwrite the Default Tags"
  (if (s.valuesOf .argument).isEmpty then
      [found .emptyTags [.string advice] (anchor s.line) s.endColumn] else []) ++
    ((tagsOf s).filter fun t => scope.forced.contains t.value).map fun t =>
      found .tagAlreadySetInForceTags [] t.line (t.column + 1)

def Scope.visit (scope : Scope) : Node → List Finding × Scope
  | .block .testCase .. => ([], { scope with tests := scope.tests + 1 })
  | .block .. => ([], scope)
  | .leaf s =>
    let values := (tagsOf s).map (·.value)
    match s.kind with
    | .forceTags => ([], { scope with forced := values, forcedLine := some s.line })
    | .defaultTags =>
      ([], { scope with
        defaults := values
        trace := { scope.trace with defaultsLine := some s.line } })
    | .tags => (inTags scope s, { scope with tagLists := scope.tagLists ++ [values] })
    | _ => ([], scope)

def Scope.visitAll (scope : Scope) : List Node → List Finding × Scope
  | [] => ([], scope)
  | n :: ns =>
    let (here, scope) := scope.visit n
    let (more, scope) := scope.visitAll ns
    (here ++ more, scope)

def Scope.visitSection (scope : Scope) (s : Section) : List Finding × Scope :=
  if s.kind = .keywords then
    let (here, scope) := (scope.within true).visitAll s.visited
    (here, scope.within false)
  else scope.visitAll s.visited

def Scope.visitSections (scope : Scope) : List Section → List Finding × Scope
  | [] => ([], scope)
  | s :: ss =>
    let (here, scope) := scope.visitSection s
    let (more, scope) := scope.visitSections ss
    (here ++ more, scope)

def Scope.common (scope : Scope) : List String :=
  match scope.tagLists with
  | [] => []
  | first :: more =>
    Text.dropRepeated (Text.sortTexts (first.filter fun tag =>
      more.all (·.contains tag) && !scope.forced.contains tag))

/-- What is said about all test cases at the end; `arrange` gives the order in which shared tags are
listed. -/
def Scope.summary (arrange : List String → List String) (scope : Scope) (d : Document) :
    List Finding :=
  if scope.tagLists.isEmpty || scope.tagLists.length ≠ scope.tests then []
  else
    (if scope.defaults.isEmpty then []
      else [found .unnecessaryDefaultTags [] (anchor (scope.trace.defaultsLine.getD d.line)) 1]) ++
    if scope.tests < 2 || scope.common.isEmpty then []
    else [found .couldBeForcedTags [.string (", ".intercalate (arrange scope.common))]
      (anchor (scope.forcedLine.getD d.line)) 1]

def checkScopes (arrange : List String → List String) (t : Trace) (d : Document) :
    List Finding × Trace :=
  let (here, scope) := (Scope.start t).visitSections d.sections
  (here ++ scope.summary arrange d, scope.trace)

end SuiteLint.Check.Tag
