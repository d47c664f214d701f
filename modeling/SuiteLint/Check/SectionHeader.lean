import SuiteLint.Check.Finding

/-! Section headers that are repeated (0808, 0810) or out of order (0809). -/
namespace SuiteLint.Check.SectionHeader

/-- The headers seen so far: their positions and their kinds. -/
structure Seen where
  positions : List Nat
  kinds : List HeaderKind

def Seen.none : Seen := ⟨[], []⟩

def kindOf : TokenKind → Option HeaderKind
  | .settingHeader => some .settings
  | .variableHeader => some .variableRows
  | .testCaseHeader => some .testCases
  | .keywordHeader => some .keywords
  | _ => .none

def namesTasks (s : Statement) : Bool :=
  Text.has "task".toList (Text.lower ((s.name?.getD "").toList))

def countedKind (kind : HeaderKind) (s : Statement) : HeaderKind × Option HeaderKind :=
  if kind = .testCases then
    if namesTasks s then (.tasks, some .testCases) else (.testCases, some .tasks)
  else (kind, .none)

/-- Judges a header of a listed kind by the headers before it. -/
def judge (order : SectionOrder) (seen : Seen) (kind : HeaderKind) (s : Statement) :
    List Finding × Seen :=
  let (counted, rival) := countedKind kind s
  let position := (order.position? counted).getD 0
  let line := anchor s.line
  let value := (s.dataTokens.head?.map (·.value)).getD ""
  (((if rival.any seen.kinds.contains then [found .bothTestsAndTasks [] line 1] else []) ++
    (if seen.kinds.contains counted then [found .sectionAlreadyDefined [.string value] line 1]
      else []) ++
    if seen.positions.any (position < ·) then
      [found .sectionOutOfOrder [.string value, .string order.describe] line 1]
    else []),
    ⟨seen.positions ++ [position], counted :: seen.kinds⟩)

def checkFrom (order : SectionOrder) (seen : Seen) :
    List Statement → Except Breakdown (List Finding)
  | [] => .ok []
  | s :: ss =>
    match s.mark? with
    | .none => .error .absentPart
    | some mark =>
      match (kindOf mark).filter fun k => (order.position? k).isSome with
      | .none => checkFrom order seen ss
      | some kind => do
        let (here, seen') := judge order seen kind s
        let more ← checkFrom order seen' ss
        return here ++ more

def check (order : SectionOrder) (d : Document) : Except Breakdown (List Finding) :=
  checkFrom order .none (d.statementsOf .sectionHeader)

end SuiteLint.Check.SectionHeader
