/-! Tabulators. -/
namespace SuiteLint.Text

def expandTabsFrom (column : Nat) : List Char → List Char
  | [] => []
  | c :: rest =>
    if c = '\t' then
      let gap := 4 - column % 4
      List.replicate gap ' ' ++ expandTabsFrom (column + gap) rest
    else if c = '\n' || c = '\r' then c :: expandTabsFrom 0 rest
    else c :: expandTabsFrom (column + 1) rest

def expandTabs (s : List Char) : List Char := expandTabsFrom 0 s

def width (s : String) : Nat := (expandTabs s.toList).length

end SuiteLint.Text
