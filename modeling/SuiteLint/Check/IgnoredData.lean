import SuiteLint.Check.Finding

/-! Data before the first section, which the framework ignores (0704). -/
namespace SuiteLint.Check.IgnoredData

/-- What a line says about the lines before the first section. -/
inductive Verdict where
  | goOn | stop | ignored
  deriving DecidableEq

/-- A section header ends the search, a `# robocop:` comment does not, and in a file with a byte order mark
the first line may hold anything. -/
def judge (marked : Bool) (number : Nat) (line : List Char) : Verdict :=
  if "***".toList.isPrefixOf line then .stop
  else if "# robocop:".toList.isPrefixOf line then .goOn
  else if number = 1 && marked then
    if Text.has "***".toList line then .stop else .goOn
  else .ignored

def checkFrom (marked : Bool) (number : Nat) : List (List Char) → List Finding
  | [] => []
  | line :: lines =>
    match judge marked number line with
    | .goOn => checkFrom marked (number + 1) lines
    | .stop => []
    | .ignored => [found .ignoredData [] number 1]

def byteOrderMarks : List (List UInt8) :=
  [[0, 0, 0xfe, 0xff], [0xff, 0xfe, 0, 0], [0xef, 0xbb, 0xbf], [0xff, 0xfe], [0xfe, 0xff]]

def isMarked (bytes : List UInt8) : Bool := byteOrderMarks.any (·.isPrefixOf bytes)

/-- Looks at the lines of a file; the bytes are those of a file on disk. -/
def check (bytes : Option (List UInt8)) (lines : List (List Char)) : List Finding :=
  let marked := bytes.any isMarked
  (if marked then [found .bomEncodingInFile [] 1 1] else []) ++ checkFrom marked 1 lines

end SuiteLint.Check.IgnoredData
