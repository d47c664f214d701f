import SuiteLint.Text.Pattern.Expr
import SuiteLint.Text.Pattern.Source

/-! The flags of a pattern. -/
namespace SuiteLint.Text.Pattern

inductive Flag where
  | whole | ignoreCase | locale | multiLine | dotAll | verbose | plain | wide
  deriving DecidableEq

namespace Flag

def ofLetter? (c : Char) : Option Flag :=
  if c = 'i' then some ignoreCase
  else if c = 'L' then some locale
  else if c = 'm' then some multiLine
  else if c = 's' then some dotAll
  else if c = 'x' then some verbose
  else if c = 'a' then some plain
  else if c = 't' then some whole
  else if c = 'u' then some wide
  else none

def ofSign? : List Char → Option Flag
  | [c] => ofLetter? c
  | _ => none

def isAlphabet (f : Flag) : Bool := f = plain || f = wide || f = locale

/-- The flags that listings show, in their order. -/
def shown : List (Flag × String) :=
  [(whole, "re.TEMPLATE"), (ignoreCase, "re.IGNORECASE"), (multiLine, "re.MULTILINE"),
   (dotAll, "re.DOTALL"), (verbose, "re.VERBOSE"), (plain, "re.ASCII")]

end Flag

def folding (flags : List Flag) : Folding :=
  if flags.contains .ignoreCase then if flags.contains .plain then .ascii else .full else .none

def withFlags (flags added removed : List Flag) : List Flag :=
  let kept := if added.any Flag.isAlphabet then flags.filter (!·.isAlphabet) else flags
  (kept ++ added).filter (!removed.contains ·)

inductive FlagMark where
  | pattern (added : List Flag)
  | group (added removed : List Flag)
  deriving DecidableEq

def isLetterSign : List Char → Bool
  | [c] => isWord c && !isDecimal c && c != '_'
  | _ => false

/-- Reads flags that are turned on; the answer has the sign that ends them. -/
def flagsOn : Nat → List Flag → Flag → Source →
    Except PatternError (List Flag × List Char × Source)
  | 0, added, _, s => .ok (added, [], s)
  | bound + 1, added, f, s => do
    if f = .locale then faultAt .localeFlag s.place
    let added := added ++ [f]
    if f.isAlphabet && added.any (fun g => g.isAlphabet && g != f) then
      faultAt .incompatibleFlags s.place
    let (sign, rest) ← s.get
    match sign with
    | none => faultAt (.missing "-, : or )") rest.place
    | some sign =>
      if sign = [')'] || sign = ['-'] || sign = [':'] then return (added, sign, rest)
      else match Flag.ofSign? sign with
        | some f => flagsOn bound added f rest
        | none =>
          faultAt (if isLetterSign sign then .unknownFlag else .missing "-, : or )")
            (rest.place - sign.length)

/-- Reads flags that are turned off, and the colon after them. -/
def flagsOff : Nat → List Flag → Flag → Source → Except PatternError (List Flag × Source)
  | 0, removed, _, s => .ok (removed, s)
  | bound + 1, removed, f, s => do
    if f.isAlphabet then faultAt .fixedFlagOff s.place
    let (sign, rest) ← s.get
    match sign with
    | none => faultAt (.missing ":") rest.place
    | some sign =>
      if sign = [':'] then return (removed ++ [f], rest)
      else match Flag.ofSign? sign with
        | some g => flagsOff bound (removed ++ [f]) g rest
        | none =>
          faultAt (if isLetterSign sign then .unknownFlag else .missing ":")
            (rest.place - sign.length)

def flagsOffFrom (s : Source) : Except PatternError (List Flag × Source) := do
  let (sign, rest) ← s.get
  match sign with
  | none => faultAt (.missing "flag") rest.place
  | some sign =>
    match Flag.ofSign? sign with
    | some f => flagsOff (rest.signs.length + 1) [] f rest
    | none =>
      faultAt (if isLetterSign sign then .unknownFlag else .missing "flag")
        (rest.place - sign.length)

def flagMark (first : Option Flag) (s : Source) : Except PatternError (FlagMark × Source) := do
  let (added, sign, s) ← match first with
    | some f => flagsOn (s.signs.length + 1) [] f s
    | none => .ok ([], ['-'], s)
  if sign = [')'] then return (.pattern added, s)
  if added.contains .whole then faultAt .wholeFlagOn (s.place - 1)
  let (removed, s) ← if sign = ['-'] then flagsOffFrom s else .ok ([], s)
  if removed.contains .whole then faultAt .wholeFlagOff (s.place - 1)
  if removed.any added.contains then faultAt .flagOnAndOff (s.place - 1)
  return (.group added removed, s)

end SuiteLint.Text.Pattern
