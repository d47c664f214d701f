import SuiteLint.Check.Finding

/-! Missing documentation of keywords (0201), test cases (0202) and suites (0203). -/
namespace SuiteLint.Check.Documentation

def isDocumented (body : List Node) : Bool := body.any (·.isStatement .documentation)

def missing (rule : RuleKey) (line : Int) (body : List Node) : List Finding :=
  if isDocumented body then [] else [found rule [] (anchor line) 1]

def isDefinition (k : BlockKind) : Bool := k = .testCase || k = .keyword

def inDefinition (n : Node) : Except Breakdown (List Finding) :=
  if n.isBlock .testCase then .ok (missing .missingDocTestCase n.line n.body)
  else do
    let name ← requiredName n
    return if isCommentedOut name then [] else missing .missingDocKeyword n.line n.body

def inSection (s : Section) : Except Breakdown (List Finding) :=
  if s.kind = .settings then .ok (missing .missingDocSuite s.line s.body)
  else gather inDefinition (s.outermost isDefinition)

def check (d : Document) : Except Breakdown (List Finding) := do
  let suite :=
    if d.sections.any (·.kind = .settings) then [] else [found .missingDocSuite [] 1 1]
  let inside ← gather inSection d.sections
  return suite ++ inside

end SuiteLint.Check.Documentation
