/-! Whole numbers written with a radix, with decimals, or with a power of ten. -/
namespace SuiteLint.Text

def radixDigits (radix n : Nat) : List Char := Nat.toDigits radix n

def divideToEven (n d : Nat) : Nat :=
  let q := n / d
  let r := n % d
  if d < 2 * r || (d = 2 * r && q % 2 = 1) then q + 1 else q

def nearestReal (n : Nat) : Option Nat :=
  let unit := Nat.pow 2 (Nat.log2 n - 52)
  let m := divideToEven n unit * unit
  if m < Nat.pow 2 1024 then some m else none

def leadingDigits (count n : Nat) : List Char × Nat :=
  let length := (Nat.toDigits 10 n).length
  if length ≤ count then
    (Nat.toDigits 10 n ++ List.replicate (count - length) '0', length - 1)
  else
    let digits := Nat.toDigits 10 (divideToEven n (Nat.pow 10 (length - count)))
    if count < digits.length then (digits.take count, length) else (digits, length - 1)

inductive RealForm where
  | fixed | scientific | general
  deriving DecidableEq

namespace RealForm

def ofLetter? (c : Char) : Option RealForm :=
  if c = 'e' || c = 'E' then some scientific
  else if c = 'f' || c = 'F' then some fixed
  else if c = 'g' || c = 'G' then some general
  else none

def decimals (pointed : Bool) (digits : List Char) : List Char :=
  if digits.isEmpty && !pointed then [] else '.' :: digits

def exponent (mark : Char) (n : Nat) : List Char :=
  let digits := Nat.toDigits 10 n
  mark :: '+' :: (if digits.length < 2 then '0' :: digits else digits)

def dropZeros (digits : List Char) : List Char := (digits.reverse.dropWhile (· == '0')).reverse

/-- A number in a form: the digits before the point, and all that follows them. -/
def write (form : RealForm) (mark : Char) (pointed : Bool) (places n : Nat) :
    List Char × List Char :=
  match form with
  | fixed => (Nat.toDigits 10 n, decimals pointed (List.replicate places '0'))
  | scientific =>
    let (digits, power) := leadingDigits (places + 1) n
    (digits.take 1, decimals pointed (digits.drop 1) ++ exponent mark power)
  | general =>
    let count := max places 1
    let (digits, power) := leadingDigits count n
    let kept (ds : List Char) := if pointed then ds else dropZeros ds
    if power < count then
      (digits.take (power + 1), decimals pointed (kept (digits.drop (power + 1))))
    else (digits.take 1, decimals pointed (kept (digits.drop 1)) ++ exponent mark power)

end RealForm

end SuiteLint.Text
