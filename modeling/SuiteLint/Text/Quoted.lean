import SuiteLint.Text.Printable

/-! Quoted text: how a text is shown inside a message. -/
namespace SuiteLint.Text

/-- A number in hexadecimal digits, at least `width` of them. -/
def hex (width n : Nat) : List Char :=
  let digits := Nat.toDigits 16 n
  List.replicate (width - digits.length) '0' ++ digits

def escapeCode (c : Char) : List Char :=
  let n := c.toNat
  if n < 256 then '\\' :: 'x' :: hex 2 n
  else if n < 65536 then '\\' :: 'u' :: hex 4 n
  else '\\' :: 'U' :: hex 8 n

def quoteChar (quote c : Char) : List Char :=
  if c = quote || c = '\\' then ['\\', c]
  else if c = '\n' then ['\\', 'n']
  else if c = '\r' then ['\\', 'r']
  else if c = '\t' then ['\\', 't']
  else if isPrintable c then [c]
  else escapeCode c

def quoted (s : List Char) : List Char :=
  let single := Char.ofNat 39
  let quote := if s.contains single && !s.contains '"' then '"' else single
  quote :: s.flatMap (quoteChar quote) ++ [quote]

def escapeWide (s : List Char) : List Char :=
  s.flatMap fun c => if c.toNat < 128 then [c] else escapeCode c

end SuiteLint.Text
