/-! Blank characters and the trimming of text. -/
namespace SuiteLint.Text

def isBlank (c : Char) : Bool :=
  let n := c.toNat
  (9 ≤ n && n ≤ 13) || (28 ≤ n && n ≤ 32) || n == 133 || n == 160 || n == 5760 ||
    (8192 ≤ n && n ≤ 8202) || n == 8232 || n == 8233 || n == 8239 || n == 8287 || n == 12288

def dropEndWhile (p : Char → Bool) (s : List Char) : List Char :=
  (s.reverse.dropWhile p).reverse

def trimLeft (s : List Char) : List Char := s.dropWhile isBlank

def trimRight (s : List Char) : List Char := dropEndWhile isBlank s

def trim (s : List Char) : List Char := trimRight (trimLeft s)

def isBlankText (s : List Char) : Bool := s.all isBlank

end SuiteLint.Text
