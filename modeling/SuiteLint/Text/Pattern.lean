import SuiteLint.Text.Pattern.Match
import SuiteLint.Text.Pattern.Reader

/-! Search patterns, and the texts that hold a match. -/
namespace SuiteLint.Text

/-- A pattern with the text it was read from. -/
structure Pattern where
  source : String
  flags : List Pattern.Flag
  expr : Pattern.Expr
  deriving DecidableEq

namespace Pattern

def parse (source : String) : Except PatternError Pattern :=
  (readExpr source.toList).map fun (flags, e) => ⟨source, flags, e⟩

def foundIn (p : Pattern) (s : List Char) : Bool := p.expr.foundFrom 0 [] s

/-- The pattern as the call that makes it, its source cut after two hundred characters. -/
def shown (p : Pattern) : String :=
  let flags := (Flag.shown.filter (p.flags.contains ·.1)).map (·.2)
  "re.compile(" ++ String.ofList ((quoted p.source.toList).take 200) ++
    (if flags.isEmpty then "" else ", " ++ "|".intercalate flags) ++ ")"

def webAddress : Pattern :=
  ⟨"https?://\\S+", [],
    .seq (.seq (.seq (.seq (.seq (.seq (.seq (.seq (.char 'h') (.char 't')) (.char 't'))
      (.char 'p')) (.times .most (.char 's') 0 (some 1))) (.char ':')) (.char '/')) (.char '/'))
      (.times .most (.set ⟨false, [.cls true false .blank], .none⟩) 1 none)⟩

def dotOrQuestionMark : Pattern :=
  ⟨"[\\.\\?]", [], .set ⟨false, [.char 46, .char 63], .none⟩⟩

end Pattern

end SuiteLint.Text
