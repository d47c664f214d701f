import SuiteLint.Text.Blank
import SuiteLint.Text.Digit

/-! Integers as they are written in settings. -/
namespace SuiteLint.Text

inductive IntegerError where
  | malformed
  | tooLong (digits : Nat)
  deriving DecidableEq

def IntegerError.message : IntegerError → String
  | malformed => "malformed integer"
  | tooLong digits =>
    "Exceeds the limit (4300 digits) for integer string conversion: value has " ++
      toString digits ++
      " digits; use sys.set_int_max_str_digits() to increase the limit"

def digitLimit : Nat := 4300

/-- Reads digits, with single underscores allowed between two of them: their values, and what
follows the last one. -/
def digitRun : List Char → Option (List Nat × List Char)
  | [] => some ([], [])
  | '_' :: rest =>
    match rest with
    | c :: more =>
      (digitValue c).bind fun d => (digitRun more).map fun (ds, after) => (d :: ds, after)
    | [] => none
  | c :: rest =>
    match digitValue c with
    | some d => (digitRun rest).map fun (ds, after) => (d :: ds, after)
    | none => some ([], c :: rest)

/-- A natural number without sign. The number of its digits is limited, and this is looked at before
what follows it. -/
def readNatural (s : List Char) : Except IntegerError Nat :=
  if s.head? = some '_' then .error .malformed
  else match digitRun s with
    | none => .error .malformed
    | some ([], _) => .error .malformed
    | some (digits, rest) =>
      if digitLimit < digits.length then .error (.tooLong digits.length)
      else if rest.isEmpty then .ok (digits.foldl (fun n d => 10 * n + d) 0)
      else .error .malformed

def isPadding (c : Char) : Bool := isBlank c && !(28 ≤ c.toNat && c.toNat ≤ 31)

def parseInteger (s : List Char) : Except IntegerError Int :=
  match dropEndWhile isPadding (s.dropWhile isPadding) with
  | '-' :: rest => (readNatural rest).map fun n => -(n : Int)
  | '+' :: rest => (readNatural rest).map Int.ofNat
  | rest => (readNatural rest).map Int.ofNat

def readInteger (s : List Char) : Option Int := (parseInteger s).toOption

end SuiteLint.Text
