import SuiteLint.Config.Options

/-! Listings of the rules. -/
namespace SuiteLint

namespace RulePattern

def isBlank : RulePattern → Bool
  | exact s => s.isEmpty
  | glob _ => false

end RulePattern

namespace Linter

def rulesFor (l : Linter) (p : RulePattern) : List (CheckerEntry Checker × Rule) :=
  (l.registry.matching p).mergeSort fun a b => !(b.2.id < a.2.id : Bool)

def paramLine? (c : CheckerEntry Checker) (r : Rule) : Option String :=
  let params := r.configurables false c.values
  if params.isEmpty then none else some (r.line ++ "\n    " ++ params)

def severityHeader : String :=
  "All rules have configurable parameter 'severity'. Allowed values are:\n    E / error\n" ++
    "    W / warning\n    I / info"

def totals (rules : List Rule) : String :=
  let count (s : Severity) := toString (rules.filter (·.severity = s)).length
  "\nAltogether " ++ toString rules.length ++ " rule(s) with following severity:\n    " ++
    count .error ++ " error rule(s),\n    " ++ count .warning ++ " warning rule(s),\n    " ++
    count .info ++ " info rule(s)."

/-- The lines for the rules that a listing is asked for. Rules are listed with their parameters, and
only if they have any, unless a plain listing is asked for too. -/
def listing (l : Linter) (plain params : RulePattern) : List String :=
  let header := if params.isBlank then [] else [severityHeader]
  if plain.isBlank then
    let found := (l.rulesFor params).filterMap fun (c, r) => (paramLine? c r).map (r, ·)
    header ++ found.map (·.2) ++ [totals (found.map (·.1))]
  else
    let found := (l.rulesFor plain).map (·.2)
    header ++ found.map Rule.line ++ [totals found]

end Linter

end SuiteLint
