import SuiteLint.Text.Glob
import SuiteLint.Text.Percent

/-! Rules: what can be reported, how serious it is and what can be set. -/
namespace SuiteLint

structure Rule where
  id : String
  name : String
  desc : String
  severity : Severity
  params : List Param
  enabled : Bool
  deriving DecidableEq

/-- A name or id, or a glob for them. -/
inductive RulePattern where
  | exact (s : String)
  | glob (g : Text.Glob)
  deriving DecidableEq

namespace RulePattern

def ofText (s : String) : RulePattern :=
  if s.toList.contains '*' then .glob (Text.Glob.parse s.toList) else .exact s

end RulePattern

namespace Rule

def matchesGlob (r : Rule) (g : Text.Glob) : Bool :=
  g.accepts r.id.toList || g.accepts r.name.toList

def isMatchedBy (r : Rule) : RulePattern → Bool
  | .exact s => s == r.name || s == r.id
  | .glob g => r.matchesGlob g

def line (r : Rule) : String :=
  "Rule - " ++ r.id ++ " [" ++ r.severity.letter ++ "]: " ++ r.name ++ ": " ++ r.desc ++ " (" ++
    (if r.enabled then "enabled" else "disabled") ++ ")"

def param? (r : Rule) (name : String) : Option Param := r.params.find? (·.name == name)

def configurables (r : Rule) (withSeverity : Bool) (values : Values) : String :=
  "\n    ".intercalate ((if withSeverity then ["severity"] else []) ++
    r.params.map fun p => p.describe (values.get p.slot))

end Rule

inductive RuleDefinitionError where
  | invalidBody (id : String) (body : Datum)
  | invalidConfigurable (id : String) (body : Datum)

def RuleDefinitionError.message : RuleDefinitionError → String
  | .invalidBody id body =>
    "Fatal error: Rule '" ++ id ++ "' has invalid body:\n" ++ body.text
  | .invalidConfigurable id body =>
    "Fatal error: Rule '" ++ id ++ "' has invalid configurable:\n" ++ body.text

def Param.ofDatum? : Datum → Option Param
  | .tuple [name, slot, .kind k] => some ⟨name.text, slot.text, k, none⟩
  | .tuple [name, slot, .kind k, info] => some ⟨name.text, slot.text, k, some info.text⟩
  | .tuple [name, slot, _] => some ⟨name.text, slot.text, .text, none⟩
  | .tuple [name, slot, _, info] => some ⟨name.text, slot.text, .text, some info.text⟩
  | _ => none

/-- A rule from a tuple of its name, its message and its severity, with parameters after them. -/
def Rule.ofBody (id : String) (body : Datum) : Except RuleDefinitionError Rule :=
  match body with
  | .tuple (name :: desc :: severity :: params) =>
    match params.mapM Param.ofDatum? with
    | none => .error (.invalidConfigurable id body)
    | some ps =>
      let s := match severity with
        | .severity s => s
        | _ => .info
      .ok ⟨id, name.text, desc.text, s, ps, true⟩
  | _ => .error (.invalidBody id body)

end SuiteLint
