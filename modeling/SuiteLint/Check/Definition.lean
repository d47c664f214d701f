import SuiteLint.Check.Finding
import SuiteLint.Name
import SuiteLint.Project.Path

/-! Keywords, FOR loops, imports and files as a whole: what stands where it should not
(0901 to 0903, 0907, 0911, 0913). -/
namespace SuiteLint.Check.Definition

/-- How far the body of a keyword was read. -/
structure Progress where
  setting : Option Statement
  callAfter : Bool
  left : Bool

def Progress.start : Progress := ⟨none, false, false⟩

/-- Takes in one part of a body: a [Return], or a call. -/
def Progress.step (p : Progress) (s : Statement) : Except Breakdown (List Finding × Progress) :=
  match s.kind with
  | .returnSetting =>
    .ok (if (s.valuesOf .argument).isEmpty then [found .emptyReturn [] (anchor s.line) s.endColumn]
      else [], { p with setting := some s })
  | .keywordCall => do
    let here ← if p.left then do
        let t ← firstData s
        pure [found .keywordAfterReturnFrom [] (anchor t.line) (t.column + 1)]
      else pure []
    return (here,
      { p with
        callAfter := p.callAfter || p.setting.isSome
        left := p.left || Name.normalized (s.keyword?.getD "") = "returnfromkeyword" })
  | _ => .ok ([], p)

def Progress.steps (p : Progress) : List Statement → Except Breakdown (List Finding × Progress)
  | [] => .ok ([], p)
  | s :: ss => do
    let (here, p') ← p.step s
    let (more, p'') ← p'.steps ss
    return (here ++ more, p'')

def returns (n : Node) : Except Breakdown (List Finding) := do
  let (here, p) ← Progress.start.steps (n.body.filterMap Node.statement?)
  match p.callAfter, p.setting with
  | true, some s => do
    let t ← firstData s
    return here ++ [found .keywordAfterReturn [] (anchor t.line) (t.column + 1)]
  | _, _ => return here

def checkReturns (d : Document) : Except Breakdown (List Finding) :=
  gather returns (d.outermost (· = .keyword))

def nested (n : Node) : Except Breakdown (List Finding) :=
  gather (fun child =>
    match child.mark? with
    | some kind => .ok (if kind = .for_ then [found .nestedForLoop [] (anchor child.line) 1] else [])
    | none => .error .absentPart) n.body

def checkLoops (d : Document) : Except Breakdown (List Finding) :=
  gather nested (d.outermost (· = .forLoop))

/-- The imports of libraries of the framework, in `standard`, behind an import of another one. -/
def misplaced (standard : List String) (outsider : Option String) :
    List (String × Statement) → List Finding
  | [] => []
  | (name, s) :: rest =>
    match outsider with
    | none =>
      misplaced standard (if standard.contains name then none else some name) rest
    | some first =>
      (if standard.contains name then
          [found .wrongImportOrder [.string name, .string first] (anchor s.line) 1]
        else []) ++ misplaced standard outsider rest

def checkImports (standard : List String) (d : Document) : List Finding :=
  misplaced standard none ((d.statementsOf .libraryImport).filterMap fun s =>
    match s.name? with
    | some name => if name.isEmpty then none else some (name, s)
    | none => none)

def sourceOf (d : Document) (fileName : String) : String :=
  match d.source with
  | some s => if s.isEmpty then fileName else s
  | none => fileName

def checkResource (fileName : String) (d : Document) : List Finding :=
  let source := sourceOf d fileName
  let path := Path.ofString source
  if !source.isEmpty && !Text.has ".resource".toList path.suffix.toList &&
      !Text.has "__init__".toList path.stem.toList && !d.sections.isEmpty &&
      !d.sections.any (·.kind = .testCases) then
    [found .canBeResourceFile [.string path.name, .string path.stem] (anchor d.line) 1]
  else []

end SuiteLint.Check.Definition
