/-! Lists of texts by code points. -/
namespace SuiteLint.Text

def sortTexts (texts : List String) : List String :=
  texts.mergeSort fun a b => !(b < a : Bool)

def dropRepeated : List String → List String
  | [] => []
  | [s] => [s]
  | s :: t :: rest => if s = t then dropRepeated (t :: rest) else s :: dropRepeated (t :: rest)

def insertText (texts : List String) (s : String) : List String :=
  if texts.contains s then texts else texts ++ [s]

def distinct (texts : List String) : List String := texts.foldl insertText []

end SuiteLint.Text
