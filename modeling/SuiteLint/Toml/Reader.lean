import SuiteLint.Text.Find
import SuiteLint.Text.Integer
import SuiteLint.Text.Quoted
import SuiteLint.Toml

/-! A reader for TOML: tables of texts, whole numbers, truth values and lists. -/
namespace SuiteLint.Toml

def isGap (c : Char) : Bool := c == ' ' || c == '\t'

def skipGap (s : List Char) : List Char := s.dropWhile isGap

def skipFiller (inComment : Bool) : List Char → List Char
  | [] => []
  | c :: rest =>
    if inComment then skipFiller (c != '\n') rest
    else if c == '#' then skipFiller true rest
    else if isGap c || c == '\n' then skipFiller false rest
    else c :: rest

def endLine (s : List Char) : Option (List Char) :=
  match skipGap s with
  | [] => some []
  | '\n' :: rest => some rest
  | '#' :: rest => some (rest.dropWhile (· != '\n'))
  | _ => none

def escaped? : Char → Option Char
  | 'b' => some '\x08'
  | 't' => some '\t'
  | 'n' => some '\n'
  | 'f' => some '\x0c'
  | 'r' => some '\r'
  | '"' => some '"'
  | '\\' => some '\\'
  | _ => none

def hexValue? (c : Char) : Option Nat :=
  if c.isDigit then some (c.toNat - 48)
  else if 'a' ≤ c && c ≤ 'f' then some (c.toNat - 87)
  else if 'A' ≤ c && c ≤ 'F' then some (c.toNat - 55)
  else none

def codePoint? (digits : List Char) : Option Char := do
  let values ← digits.mapM hexValue?
  let n := values.foldl (16 * · + ·) 0
  if n.isValidChar then some (Char.ofNat n) else none

/-- The rest of a text in double quotes, and what comes after it. -/
def quotedBody : List Char → Option (List Char × List Char)
  | [] => none
  | '"' :: rest => some ([], rest)
  | '\n' :: _ => none
  | '\\' :: 'u' :: a :: b :: c :: d :: rest => do
    let first ← codePoint? [a, b, c, d]
    let (more, rest) ← quotedBody rest
    return (first :: more, rest)
  | '\\' :: c :: rest => do
    let first ← escaped? c
    let (more, rest) ← quotedBody rest
    return (first :: more, rest)
  | c :: rest => do
    let (more, rest) ← quotedBody rest
    return (c :: more, rest)

def literalBody : List Char → Option (List Char × List Char)
  | [] => none
  | '\'' :: rest => some ([], rest)
  | '\n' :: _ => none
  | c :: rest => do
    let (more, rest) ← literalBody rest
    return (c :: more, rest)

def endsWord (c : Char) : Bool := isGap c || c == '\n' || c == ',' || c == ']' || c == '#'

def plainValue? (word : List Char) : Option Value :=
  if word = "true".toList then some (.flag true)
  else if word = "false".toList then some (.flag false)
  else if word.all fun c => c.isDigit || c == '_' || c == '-' || c == '+' then
    (Text.readInteger word).map .integer
  else none

mutual

/-- Reads a value; the first argument bounds the depth and length of lists. -/
def value : Nat → List Char → Option (Value × List Char)
  | 0, _ => none
  | fuel + 1, s =>
    match s with
    | '"' :: rest => (quotedBody rest).map fun (chars, rest) => (.text (String.ofList chars), rest)
    | '\'' :: rest => (literalBody rest).map fun (chars, rest) => (.text (String.ofList chars), rest)
    | '[' :: rest => (values fuel rest).map fun (vs, rest) => (.list vs, rest)
    | _ =>
      (plainValue? (s.takeWhile (!endsWord ·))).map fun v => (v, s.dropWhile (!endsWord ·))

def values : Nat → List Char → Option (List Value × List Char)
  | 0, _ => none
  | fuel + 1, s =>
    match skipFiller false s with
    | ']' :: rest => some ([], rest)
    | s => do
      let (first, rest) ← value fuel s
      match skipFiller false rest with
      | ']' :: rest => return ([first], rest)
      | ',' :: rest =>
        let (more, rest) ← values fuel rest
        return (first :: more, rest)
      | _ => none

end

def isKeyChar (c : Char) : Bool := c.isAlphanum || c == '_' || c == '-'

def key (s : List Char) : Option (String × List Char) :=
  match s with
  | '"' :: rest => (quotedBody rest).map fun (chars, rest) => (String.ofList chars, rest)
  | '\'' :: rest => (literalBody rest).map fun (chars, rest) => (String.ofList chars, rest)
  | _ =>
    let name := s.takeWhile isKeyChar
    if name.isEmpty then none else some (String.ofList name, s.dropWhile isKeyChar)

def keys : Nat → List Char → Option (List String × List Char)
  | 0, _ => none
  | fuel + 1, s => do
    let (first, rest) ← key (skipGap s)
    match skipGap rest with
    | '.' :: rest =>
      let (more, rest) ← keys fuel rest
      return (first :: more, rest)
    | rest => return ([first], rest)

/-- Enters a value under a new key, in a table within tables. -/
def enter (v : Value) : List String → List (String × Value) → Option (List (String × Value))
  | [], _ => none
  | [name], entries =>
    if (entries.lookup name).isSome then none else some (entries ++ [(name, v)])
  | name :: names, entries =>
    match entries.lookup name with
    | none => (enter v names []).map fun inner => entries ++ [(name, .table inner)]
    | some (.table inner) => (enter v names inner).map fun inner =>
        replaceEntry name (.table inner) entries
    | some _ => none

def declare : List String → List (String × Value) → Option (List (String × Value))
  | [], entries => some entries
  | name :: names, entries =>
    match entries.lookup name with
    | none => (declare names []).map fun inner => entries ++ [(name, .table inner)]
    | some (.table inner) => (declare names inner).map fun inner =>
        replaceEntry name (.table inner) entries
    | some _ => none

/-- Reads lines below the headers met so far, of which the nearest comes first. -/
def linesFrom (headers : List (List String)) (entries : List (String × Value)) :
    Nat → List Char → Option (List (String × Value))
  | 0, _ => none
  | fuel + 1, s =>
    match skipFiller false s with
    | [] => some entries
    | '[' :: rest => do
      let (names, rest) ← keys fuel rest
      match rest with
      | ']' :: rest =>
        let rest ← endLine rest
        if headers.contains names then none
        else linesFrom (names :: headers) (← declare names entries) fuel rest
      | _ => none
    | s => do
      let (names, rest) ← keys fuel s
      match rest with
      | '=' :: rest =>
        let (v, rest) ← value fuel (skipGap rest)
        let rest ← endLine rest
        linesFrom headers (← enter v (headers.headD [] ++ names) entries) fuel rest
      | _ => none

def read (s : List Char) : Option (List (String × Value)) := linesFrom [] [] (s.length + 2) s

end SuiteLint.Toml
