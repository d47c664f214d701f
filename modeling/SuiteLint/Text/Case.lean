import SuiteLint.Text.Cased
import SuiteLint.Text.CaseMap

/-! The case of whole texts. -/
namespace SuiteLint.Text

/-- Whether a capital sigma stands at the end of a word, given what precedes it, nearest first, and
what follows it. -/
def endsWord (before after : List Char) : Bool :=
  (match before.dropWhile isCaseIgnorable with
    | c :: _ => isCased c
    | [] => false) &&
  (match after.dropWhile isCaseIgnorable with
    | c :: _ => !isCased c
    | [] => true)

def lowerAfter (before : List Char) : List Char → List Char
  | [] => []
  | c :: rest =>
    (if c = 'Σ' then [if endsWord before rest then 'ς' else 'σ'] else lowerChar c) ++
      lowerAfter (c :: before) rest

def lower (s : List Char) : List Char := lowerAfter [] s

def upper (s : List Char) : List Char := s.flatMap upperChar

def isUpperText (s : List Char) : Bool :=
  s.any isUpper && !s.any fun c => isLower c || isTitle c

def isTitleFrom (inWord seen : Bool) : List Char → Bool
  | [] => seen
  | c :: rest =>
    if isUpper c || isTitle c then !inWord && isTitleFrom true true rest
    else if isLower c then inWord && isTitleFrom true true rest
    else isTitleFrom false seen rest

def isTitleText (s : List Char) : Bool := isTitleFrom false false s

def capitalize : List Char → List Char
  | [] => []
  | c :: rest => c.toUpper :: lowerAfter [c] rest

end SuiteLint.Text
