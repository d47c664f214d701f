/-! How a text is cut into lines. -/
namespace SuiteLint.Text

def isLineEnd (c : Char) : Bool :=
  let n := c.toNat
  (10 ≤ n && n ≤ 13) || (28 ≤ n && n ≤ 30) || n == 133 || n == 8232 || n == 8233

/-- The lines with their ends; a carriage return and a line feed end a line together. -/
def lines : List Char → List (List Char)
  | [] => []
  | '\r' :: '\n' :: rest => ['\r', '\n'] :: lines rest
  | c :: rest =>
    if isLineEnd c then [c] :: lines rest
    else match lines rest with
      | [] => [[c]]
      | line :: more => (c :: line) :: more

def chomp : List Char → List Char
  | [] => []
  | ['\r', '\n'] => []
  | [c] => if isLineEnd c then [] else [c]
  | c :: rest => c :: chomp rest

def byteLines : List UInt8 → List (List UInt8)
  | [] => []
  | b :: rest =>
    if b = 10 then [b] :: byteLines rest
    else match byteLines rest with
      | [] => [[b]]
      | line :: more => (b :: line) :: more

def decode (bytes : List UInt8) : Option (List Char) :=
  (String.fromUTF8? ⟨bytes.toArray⟩).map String.toList

def plainLineFeeds : List Char → List Char
  | [] => []
  | '\r' :: '\n' :: rest => '\n' :: plainLineFeeds rest
  | c :: rest => c :: plainLineFeeds rest

def dropByteOrderMark : List Char → List Char
  | c :: rest => if c.toNat = 0xfeff then rest else c :: rest
  | [] => []

/-- The lines of a file in UTF-8, without a byte order mark before the first of them; none if some
line is not in UTF-8. -/
def fileLines (bytes : List UInt8) : Option (List (List Char)) := do
  let decoded ← (byteLines bytes).mapM decode
  let unmarked := match decoded with
    | first :: more => dropByteOrderMark first :: more
    | [] => []
  return unmarked.map plainLineFeeds

end SuiteLint.Text
