import SuiteLint.Suggestion

/-! The selection of rules: which of them are on. -/
namespace SuiteLint

structure Selection where
  included : List String
  excluded : List String
  includedGlobs : List Text.Glob
  excludedGlobs : List Text.Glob
  threshold : Severity

namespace Selection

def everything : Selection := ⟨[], [], [], [], .info⟩

def isSeverityLetter (c : Char) : Bool := c == 'I' || c == 'W' || c == 'E'

def withoutSeverity (name : String) : String :=
  match name.toList with
  | c :: rest =>
    if isSeverityLetter c && 4 ≤ (rest.takeWhile Char.isDigit).length then
      String.ofList (name.toList.filter (!isSeverityLetter ·))
    else name
  | [] => name

def isGlob (name : String) : Bool := name.toList.contains '*'

def splitNames (names : List String) : List String × List Text.Glob :=
  (Text.distinct (names.filter (!isGlob ·)),
    (names.filter isGlob).map fun name => Text.Glob.parse name.toList)

/-- Moves the globs among the names to their own lists, and drops the letters of severities. -/
def tidy (s : Selection) : Selection :=
  let included := splitNames (s.included.map withoutSeverity)
  let excluded := splitNames (s.excluded.map withoutSeverity)
  { s with
    included := included.1
    includedGlobs := s.includedGlobs ++ included.2
    excluded := excluded.1
    excludedGlobs := s.excludedGlobs ++ excluded.2 }

def isNamed (r : Rule) (names : List String) (globs : List Text.Glob) : Bool :=
  names.contains r.id || names.contains r.name || globs.any r.matchesGlob

def rejects (s : Selection) (r : Rule) : Bool :=
  r.severity < s.threshold || isNamed r s.excluded s.excludedGlobs

def admits (s : Selection) (r : Rule) : Bool :=
  !s.rejects r &&
    ((s.included.isEmpty && s.includedGlobs.isEmpty) || isNamed r s.included s.includedGlobs)

def renamedRules : List (String × String) :=
  [("missing-whitespace-after-setting", "not-enough-whitespace-after-setting"),
   ("variable-should-left-aligned", "variable-should-be-left-aligned"),
   ("0304", "0406"),
   ("invalid-char-in-name", "not-allowed-char-in-name")]

def renameNote (old new : String) : String :=
  "### DEPRECATION WARNING ###\nThe name (or ID) of the rule '" ++ old ++ "' is renamed to '" ++
    new ++ "'. Update your configuration if you're using old name. " ++
    "This information will disappear in the next version (1.12.0)\n\n"

def renameIn (old new : String) (names : List String) : List String :=
  if names.contains old then Text.insertText (names.filter (· ≠ old)) new else names

def renameOld (names : List String) (name : String) : List String :=
  match renamedRules.lookup name with
  | some new => renameIn name new names
  | none => names

/-- The names that a walk through a set meets, one after the other, while the old ones among them are
renamed in it. -/
def IsMet : List String → List String → Prop
  | _, [] => True
  | names, name :: later => name ∈ names ∧ IsMet (renameOld names name) later

/-- How a set of names is walked through. Once an old name was renamed, names can be left out or met
again. -/
structure Walk where
  visits : List String → List String
  isMet (names : List String) : IsMet names (visits names)
  complete {names : List String} : (∀ name ∈ visits names, renamedRules.lookup name = none) →
    ∀ name ∈ names, name ∈ visits names

def rename (s : Selection) (old new : String) : Selection :=
  { s with included := renameIn old new s.included, excluded := renameIn old new s.excluded }

/-- Goes through names of one of the two lists of a selection: an old name is renamed in both, with a
note, and an unknown name is an error. So is an old name next to its new one. -/
def review (known : List String) (listed : Selection → List String) (s : Selection) :
    List String → List String × Except LintError Selection
  | [] => ([], .ok s)
  | name :: names =>
    match renamedRules.lookup name with
    | some new =>
      if (listed s).contains name && (listed s).contains new then
        ([renameNote name new], .error .namesChanged)
      else
        let (notes, outcome) := review known listed (s.rename name new) names
        (renameNote name new :: notes, outcome)
    | none =>
      if known.contains name then review known listed s names
      else ([], .error (.unknownRule name (Suggestion.hint name known)))

def validate (s : Selection) (walk : Walk) (known : List String) :
    List String × Except LintError Selection :=
  match review known (·.included) s (walk.visits s.included) with
  | (notes, .error e) => (notes, .error e)
  | (notes, .ok s') =>
    let (more, outcome) := review known (·.excluded) s' (walk.visits s'.excluded)
    (notes ++ more, outcome)

end Selection

end SuiteLint
