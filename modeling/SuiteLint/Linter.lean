import SuiteLint.Check.Assignment
import SuiteLint.Check.Comment
import SuiteLint.Check.Documentation
import SuiteLint.Check.Duplicate
import SuiteLint.Check.EmptyLine
import SuiteLint.Check.IgnoredData
import SuiteLint.Check.KeywordCall
import SuiteLint.Check.KeywordName
import SuiteLint.Check.Layout
import SuiteLint.Check.Length
import SuiteLint.Check.Line
import SuiteLint.Check.Naming
import SuiteLint.Check.ParsingError
import SuiteLint.Check.SectionHeader
import SuiteLint.Check.Setting
import SuiteLint.Check.Tag
import SuiteLint.Check.Variable
import SuiteLint.Host
import SuiteLint.Registry

/-! The linter: all checkers on one document after the other. -/
namespace SuiteLint

/-- What the checkers keep from one document to the next. What a checker sets anew at the start of
every document is not kept. -/
structure Memory where
  /-- Whether tags are read as those of a keyword. -/
  inKeyword : Bool
  scope : Check.Variable.Scope
  tags : Check.Tag.Trace

def Memory.blank : Memory := ⟨false, .outside, .blank⟩

/-- The text of a file: held in memory, or the bytes on disk. -/
inductive Content where
  | text (s : List Char)
  | bytes (bs : List UInt8)

namespace Content

/-- The lines with their ends; none if the bytes are not in UTF-8. -/
def lines? : Content → Option (List (List Char))
  | text s => some (Text.lines s)
  | bytes bs => Text.fileLines bs

def bytes? : Content → Option (List UInt8)
  | text _ => none
  | bytes bs => some bs

def disablers : Content → Disablers
  | text s => .ofText s
  | bytes bs =>
    match Text.fileLines bs with
    | some lines => .ofLines lines
    | none => .everything

def decodeNote (path : String) : String :=
  "Failed to decode " ++ path ++
    ". Default supported encoding by Robot Framework is UTF-8. Skipping file"

end Content

structure Subject where
  fileName : String
  content : Content
  document : Document

def Document.isTemplated (d : Document) : Bool :=
  match (d.statementsOf .testTemplate).getLast? with
  | some s => !(s.setting?.getD "").isEmpty
  | none => false

/-- What the checkers of a document are told about it, apart from what it holds. -/
structure Job where
  host : Host
  fileName : String
  content : Content
  templated : Bool
  off : Disablers

def Subject.job (s : Subject) (host : Host) : Job :=
  ⟨host, s.fileName, s.content, s.document.isTemplated, s.content.disablers⟩

/-- What a checker leaves behind: the document, which it may change, and the memory. -/
structure Wake where
  document : Document
  memory : Memory

/-- The findings of one checker, and what it leaves behind. A checker that fails may leave its mark
on the memory. -/
def Checker.run (c : Checker) (job : Job) (values : Values) (w : Wake) :
    Except Breakdown (List Finding) × Wake :=
  let d := w.document
  let lines := job.content.lines?.getD []
  match c with
  | .comments => (.ok (Check.Comment.check job.host.modern d), w)
  | .ignoredData => (.ok (Check.IgnoredData.check job.content.bytes? lines), w)
  | .missingDocumentation => (Check.Documentation.check d, w)
  | .duplications => (Check.Duplicate.check job.host.modern d, w)
  | .sectionHeaders =>
    (Check.SectionHeader.check (values.order (RuleKey.sectionOutOfOrder.slot "sections_order")) d, w)
  | .missingKeywordName => (Check.KeywordCall.checkNames d, w)
  | .parsingErrors => (Check.ParsingError.check d, w)
  | .twoSpacesAfterSettings => (Check.KeywordCall.checkSettings d, w)
  | .variablesImports => (.ok (Check.Setting.checkVariablesImports d), w)
  | .emptySections => (.ok (Check.Length.checkSections d), w)
  | .emptySettings => (Check.Setting.checkEmpty d, w)
  | .lengths => (Check.Length.check values d, w)
  | .lineLength => (.ok (Check.Line.checkLength values lines), w)
  | .returnedValues => (.ok (Check.Length.checkReturned values d), w)
  | .testCaseNumber => (.ok (Check.Length.checkTestCases values job.templated d), w)
  | .assignmentSigns => (Check.Assignment.check values d, w)
  | .emptyVariables => (.ok (Check.Variable.checkEmpty job.host.modern d), w)
  | .ifBlockCanBeUsed => (.ok (Check.KeywordCall.checkConditions d), w)
  | .nestedForLoops => (Check.Definition.checkLoops d, w)
  | .resourceFile => (.ok (Check.Definition.checkResource job.fileName d), w)
  | .returns => (Check.Definition.checkReturns d, w)
  | .importOrder => (.ok (Check.Definition.checkImports job.host.libraries d), w)
  | .charactersInNames => (Check.Naming.checkCharacters values job.fileName d, w)
  | .keywordNaming => (Check.KeywordName.check job.host.modern values d, w)
  | .settingNaming => (Check.Naming.checkSettings d, w)
  | .similarVariables =>
    let (findings, scope) := Check.Variable.checkSimilar w.memory.scope d
    (.ok findings, { w with memory := { w.memory with scope := scope } })
  | .testCaseNaming => (.ok (Check.Naming.checkTitles d), w)
  | .variableNaming => (Check.Variable.checkNames d, w)
  | .emptyLines => (Check.EmptyLine.check values job.templated d, w)
  | .tabsAndSpaces => (.ok (Check.Layout.checkSeparators d), w)
  | .trailingSpace => (.ok (Check.Line.checkEnds lines), w)
  | .leftAlignment => (Check.Layout.checkAlignment d, w)
  | .continuations => (Check.Layout.checkContinuations d, w)
  | .indents => (Check.Indent.check d, w)
  | .tagNames =>
    match Check.Tag.checkNames w.memory.inKeyword d with
    | .ok (findings, document, flag) =>
      (.ok findings, ⟨document, { w.memory with inKeyword := flag }⟩)
    | .error e => (.error e, { w with memory := { w.memory with inKeyword := true } })
  | .tagScopes =>
    let (findings, tags) := Check.Tag.checkScopes job.host.arrange w.memory.tags d
    (.ok findings, { w with memory := { w.memory with tags := tags } })

def CheckerEntry.issueOf (c : CheckerEntry Checker) (source : String) (f : Finding) :
    Except LintError (Option Issue) :=
  c.issue f.rule.name f.args source ⟨some f.line, some f.col, none, none⟩ f.extraLines

def CheckerEntry.issuesOf (c : CheckerEntry Checker) (source : String) (off : Disablers)
    (findings : List Finding) : Except LintError (List Issue) := do
  let issues ← findings.mapM (c.issueOf source)
  return (issues.filterMap id).filter fun i =>
    !off.covers (i.line :: i.extraLines) i.ruleId i.name

/-- The linter with its checkers and their memory. -/
structure Linter where
  host : Host
  registry : Registry Checker
  memory : Memory

namespace Linter

def entry (host : Host) (c : Checker) : CheckerEntry Checker :=
  ⟨c, c.title, c.keys.map (·.rule), c.defaults, !c.suits host.modern, []⟩

def loadAll (s : Selection) (host : Host) (r : Registry Checker) :
    List Checker → Except LintError (Registry Checker)
  | [] => .ok r
  | c :: cs =>
    match r.register s (entry host c) with
    | (r, .ok ()) => loadAll s host r cs
    | (_, .error e) => .error e

/-- A linter with all checkers and the rules that the selection admits. -/
def load (s : Selection) (host : Host) : Except LintError Linter := do
  let r ← loadAll s host .empty host.checkers
  return ⟨host, r, .blank⟩

/-- Runs checkers in order; one that fails ends the check of the document. -/
def runAll (job : Job) (w : Wake) :
    List (CheckerEntry Checker) → Except LintError (List Issue) × Memory
  | [] => (.ok [], w.memory)
  | c :: cs =>
    if c.disabled then runAll job w cs
    else match c.tag.run job c.values w with
      | (.error e, w) => (.error (.brokenCheck e), w.memory)
      | (.ok findings, w) =>
        match c.issuesOf job.fileName job.off findings with
        | .error e => (.error e, w.memory)
        | .ok issues =>
          match runAll job w cs with
          | (.ok more, memory) => (.ok (issues ++ more), memory)
          | (.error e, memory) => (.error e, memory)

def check (l : Linter) (s : Subject) : Except LintError (List Issue) × Linter :=
  let job := s.job l.host
  if job.off.wholeFile then (.ok [], l)
  else
    let (outcome, memory) := runAll job ⟨s.document, l.memory⟩ l.registry.active
    (outcome, { l with memory := memory })

end Linter

end SuiteLint
