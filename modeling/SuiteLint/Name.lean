import SuiteLint.Text.Case
import SuiteLint.Text.Find

/-! Names of keywords, test cases and variables: what they are compared by, and the variables
inside them. -/
namespace SuiteLint.Name

def normalize (name : List Char) : List Char :=
  Text.lower (Text.without '_' (Text.without ' ' name))

def normalizeVariable (name : List Char) : List Char :=
  ((normalize name).drop 2).dropLast

def normalized (name : String) : String := String.ofList (normalize name.toList)

def normalizedVariable (name : String) : String := String.ofList (normalizeVariable name.toList)

def withoutChars (name : String) (chars : List Char) : String :=
  String.ofList (name.toList.filter (!chars.contains ·))

def isVariableSign (c : Char) : Bool := c == '$' || c == '@' || c == '%' || c == '&'

/-- Where a reader of a name stands. -/
inductive Scan where
  | outside (escaped : Bool)
  | inside (opening closing : Char) (depth : Nat)

/-- Leaves out the variables, together with the items in brackets that follow them. -/
def removeFrom : Scan → List Char → List Char
  | _, [] => []
  | .outside escaped, c :: rest =>
    match rest with
    | '{' :: rest' =>
      if isVariableSign c && !escaped then removeFrom (.inside '{' '}' 0) rest'
      else c :: removeFrom (.outside (c == '\\')) ('{' :: rest')
    | rest => c :: removeFrom (.outside (c == '\\')) rest
  | .inside opening closing depth, c :: rest =>
    if c = opening then removeFrom (.inside opening closing (depth + 1)) rest
    else if c = closing then
      match depth with
      | depth + 1 => removeFrom (.inside opening closing depth) rest
      | 0 =>
        match rest with
        | '[' :: rest' => removeFrom (.inside '[' ']' 0) rest'
        | rest => removeFrom (.outside false) rest
    else removeFrom (.inside opening closing depth) rest

def removeVariables (name : List Char) : List Char := removeFrom (.outside false) name

/-- Finds the variables from place `index` on; inside one, its start and the number of further open
braces are known. -/
def findFrom (index : Nat) (escaped : Bool) : Option (Nat × Nat) → List Char → List (Nat × Nat)
  | _, [] => []
  | none, c :: rest =>
    match rest with
    | '{' :: rest' =>
      if isVariableSign c && !escaped then findFrom (index + 2) false (some (index, 0)) rest'
      else findFrom (index + 1) (c == '\\') none ('{' :: rest')
    | rest => findFrom (index + 1) (c == '\\') none rest
  | some (start, depth), c :: rest =>
    if c = '{' then findFrom (index + 1) false (some (start, depth + 1)) rest
    else if c = '}' then
      match depth with
      | depth + 1 => findFrom (index + 1) false (some (start, depth)) rest
      | 0 => (start, index + 1) :: findFrom (index + 1) false none rest
    else findFrom (index + 1) false (some (start, depth)) rest

def findVariables (name : List Char) : List (Nat × Nat) := findFrom 0 false none name

def assignmentSign (s : List Char) : List Char :=
  match Text.cutAt '}' s with
  | (_, some sign) => sign
  | (whole, none) => whole

end SuiteLint.Name
