import SuiteLint.Error
import SuiteLint.Text.Similar

/-! Hints for names that do not exist: the known names that look alike. -/
namespace SuiteLint.Suggestion

def isWordBreak (c : Char) : Bool := c == '-' || c == '_' || c == ' '

def wordsFrom (inBreak : Bool) : List Char → List (List Char)
  | [] => [[]]
  | c :: rest =>
    if isWordBreak c then
      if inBreak then wordsFrom true rest else [] :: wordsFrom true rest
    else match wordsFrom false rest with
      | [] => [[c]]
      | word :: words => (c :: word) :: words

/-- The two forms in which names are compared: the sorted words, and the name without hyphens and
underscores. -/
def forms (name : String) : String × String :=
  let words := (wordsFrom false name.toList).map String.ofList
  (" ".intercalate (Text.sortTexts words),
    String.ofList (Text.without '_' (Text.without '-' name.toList)))

def addForm (table : List (String × List String)) (form name : String) :
    List (String × List String) :=
  if (table.lookup form).isSome then
    table.map fun entry => if entry.1 = form then (form, entry.2 ++ [name]) else entry
  else table ++ [(form, [name])]

def formTable (names : List String) : List (String × List String) :=
  names.foldl (fun table name => addForm (addForm table (forms name).1 name) (forms name).2 name) []

/-- The texts that are close to a word. Once there is something to compare, at least one of them has
to be asked for. -/
def closest (word : String) (texts : List String) (most : Int) :
    Except LintError (List String) :=
  if word.isEmpty || texts.isEmpty then .ok []
  else if most ≤ 0 then .error (.emptyRequest most)
  else .ok (Text.closeTo word texts most.toNat)

def similarNames (name : String) (names : List String) : List String :=
  let table := formTable names
  let keys := table.map (·.1)
  let close := Text.closeTo (forms name).1 keys 5 ++ Text.closeTo (forms name).2 keys 5
  Text.dropRepeated (Text.sortTexts (close.flatMap fun form => (table.lookup form).getD []))

def hint (name : String) (names : List String) : String :=
  match similarNames name names with
  | [] => ""
  | found => " Did you mean:\n" ++ "\n".intercalate (found.map ("    " ++ ·))

end SuiteLint.Suggestion
