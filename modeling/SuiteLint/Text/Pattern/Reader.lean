import SuiteLint.Text.Pattern.Draft

/-! Reading an expression from the text of a pattern. -/
namespace SuiteLint.Text.Pattern

/-- A reference to a group by number, or a character by octal digits. -/
def numberEscape (d : Draft) (c : Char) (s : Source) : Except PatternError (Draft × Source) := do
  let (more, s) ← s.takeUpTo Char.isDigit 1
  let isCode := isOctal c && more.all isOctal && more.length = 1
  let (third, s) ← if isCode then s.takeUpTo isOctal 1 else .ok ([], s)
  let digits := c :: more ++ third
  let written := '\\' :: digits
  if third.length = 1 then
    let n := numberOf 8 digits
    if 255 < n then faultAt (.largeOctal written) (s.place - written.length)
    return (d.pushCode n, s)
  else
    let n := numberOf 10 digits
    if d.groups < n then faultAt (.unknownGroup n) (s.place - digits.length)
    if !d.isClosed n then faultAt .openGroup (s.place - written.length)
    d.checkBehind n s.place
    return (d.again n, s)

/-- An escape outside a set; the backslash and the character after it have been taken. -/
def escape (d : Draft) (c : Char) (s : Source) : Except PatternError (Draft × Source) :=
  match classEscape d.isPlain c, controlEscape c, codeEscape? c s with
  | some item, _, _ => .ok (d.push (.set ⟨false, [item], .none⟩) .item, s)
  | _, some n, _ => .ok (d.pushCode n, s)
  | _, _, some found => found.map fun (n, rest) => (d.pushCode n, rest)
  | none, none, none =>
    if c = 'A' then .ok (d.push (.anchor .textStart) .anchor, s)
    else if c = 'Z' then .ok (d.push (.anchor .textEnd) .anchor, s)
    else if c = 'b' then .ok (d.push (.anchor (.wordEdge false d.isPlain)) .anchor, s)
    else if c = 'B' then .ok (d.push (.anchor (.wordEdge true d.isPlain)) .anchor, s)
    else if c = '0' then do
      let (digits, s) ← s.takeUpTo isOctal 2
      return (d.pushCode (numberOf 8 digits), s)
    else if c.isDigit then numberEscape d c s
    else if c.isAlpha then faultAt (.badEscape ['\\', c]) (s.place - 2)
    else .ok (d.pushCode c.toNat, s)

def repeatNumber (digits : List Char) : Except PatternError (Option Nat) :=
  if digits.isEmpty then .ok none
  else if digitLimit < digits.length then .error (.longNumber digits.length)
  else
    let n := numberOf 10 digits
    if 0xFFFFFFFF ≤ n then .error .largeRepeat else .ok (some n)

/-- The bounds of a repetition and what follows them; none if a brace stands for itself. The sign has
been taken. -/
def bounds? (c : Char) (s : Source) :
    Except PatternError (Option (Nat × Option Nat × Source)) := do
  if c = '?' then return some (0, some 1, s)
  if c = '*' then return some (0, none, s)
  if c = '+' then return some (1, none, s)
  if s.sees '\x7d' then return none
  let (low, rest) ← s.digits
  let (comma, rest) ← rest.take? ','
  let (high, rest) ← if comma then rest.digits else .ok (low, rest)
  let (closed, rest) ← rest.take? '\x7d'
  if !closed then return none
  let least := (← repeatNumber low).getD 0
  let most ← repeatNumber high
  if most.any (· < least) then faultAt .backwardRepeat s.place
  return some (least, most, rest)

/-- A repetition mark whose sign has been taken. -/
def repetition (d : Draft) (c : Char) (s : Source) : Except PatternError (Draft × Source) := do
  match ← bounds? c s with
  | none => return (d.pushCode c.toNat, s)
  | some (least, most, rest) =>
    match d.branch.last with
    | none | some (_, .anchor) => faultAt .nothingToRepeat (s.place - 1)
    | some (_, .repeated) => faultAt .multipleRepeat (s.place - 1)
    | some (e, .item) =>
      let (lazy, rest) ← rest.take? '?'
      let (fixed, rest) ← if lazy then .ok (false, rest) else rest.take? '+'
      let greed : Greed := if lazy then .least else if fixed then .fixed else .most
      return ({ d with branch := ⟨d.branch.done, some (.times greed e least most, .repeated)⟩ }, rest)

def setFrom (d : Draft) (s : Source) : Except PatternError (Draft × Source) := do
  let (negated, rest) ← s.take? '^'
  let (items, rest) ← setItems d.isPlain (s.place - 1) (rest.signs.length + 1) [] rest
  return (d.push (setOf d.folding negated items) .item, rest)

def isNameStart (c : Char) : Bool := isWord c && !isDecimal c

def isGroupName : List Char → Bool
  | c :: rest => isNameStart c && rest.all isWord
  | [] => false

def capture (d : Draft) (name : Option (List Char)) (place : Nat) (s : Source) :
    Except PatternError (Draft × Source) := do
  let n := d.groups + 1
  match name with
  | none => return ({ d with groups := n }.enter (.capture n) place d.flags, s)
  | some name =>
    match d.names.lookup name with
    | some earlier =>
      faultAt (.repeatedGroupName name n earlier) (s.place - (name.length + 1))
    | none =>
      return ({ d with groups := n, names := (name, n) :: d.names }.enter (.capture n) place d.flags,
        s)

def groupNamed (d : Draft) (name : List Char) (s : Source) : Except PatternError Nat :=
  match d.names.lookup name with
  | some n => .ok n
  | none => faultAt (.unknownGroupName name) (s.place - (name.length + 1))

/-- A group with a name, or a reference to one. -/
def namedGroup (d : Draft) (place : Nat) (s : Source) : Except PatternError (Draft × Source) := do
  let isNew := s.sees '<'
  if isNew || s.sees '=' then
    let (name, s) ← (← s.next).nameUntil (if isNew then '>' else ')') "group name"
    if !isGroupName name then faultAt (.badGroupName name) (s.place - (name.length + 1))
    if isNew then capture d (some name) place s
    else
      let n ← groupNamed d name s
      if !d.isClosed n then faultAt .openGroup (s.place - (name.length + 1))
      d.checkBehind n s.place
      return (d.again n, s)
  else
    let (sign, s) ← s.get
    match sign with
    | none => faultAt .unexpectedEnd s.place
    | some sign => faultAt (.unknownExtension ('P' :: sign)) (s.place - (sign.length + 2))

def groupLimit : Nat := 1073741823

def choice (d : Draft) (place : Nat) (s : Source) : Except PatternError (Draft × Source) := do
  let (name, s) ← s.nameUntil ')' "group name"
  let start := s.place - (name.length + 1)
  if isGroupName name then
    let n ← groupNamed d name s
    d.checkBehind n s.place
    return (d.enter (.choice n) place d.flags, s)
  else
    match parseInteger name with
    | .ok (.ofNat 0) => faultAt .badGroupNumber start
    | .ok (.ofNat n) =>
      if groupLimit ≤ n then faultAt (.unknownGroup n) start
      let asked := if (d.asked.lookup n).isSome then d.asked else d.asked ++ [(n, start)]
      d.checkBehind n s.place
      return ({ d with asked }.enter (.choice n) place d.flags, s)
    | _ => faultAt (.badGroupName name) start

/-- What follows a question mark at the start of a group. -/
def extension (d : Draft) (place : Nat) (s : Source) : Except PatternError (Draft × Source) := do
  let (sign, s) ← s.get
  match sign with
  | none => faultAt .unexpectedEnd s.place
  | some ['P'] => namedGroup d place s
  | some [':'] => return (d.enter .plain place d.flags, s)
  | some ['#'] =>
    let (found, rest) ← Source.skipPast ')' (s.signs.length + 1) s
    if found then return (d, rest) else faultAt .unterminatedComment place
  | some ['='] => return (d.enter (.ahead false) place d.flags, s)
  | some ['!'] => return (d.enter (.ahead true) place d.flags, s)
  | some ['<'] =>
    let (sign, s) ← s.get
    match sign with
    | none => faultAt .unexpectedEnd s.place
    | some ['='] => return (d.enter (.behind false) place d.flags, s)
    | some ['!'] => return (d.enter (.behind true) place d.flags, s)
    | some sign => faultAt (.unknownExtension ('<' :: sign)) (s.place - (sign.length + 2))
  | some ['('] => choice d place s
  | some ['>'] => return (d.enter .settled place d.flags, s)
  | some sign =>
    let flag := Flag.ofSign? sign
    if flag.isNone && sign ≠ ['-'] then
      faultAt (.unknownExtension sign) (s.place - (sign.length + 1))
    let (mark, s) ← flagMark flag s
    match mark with
    | .pattern added =>
      if d.isFresh then return ({ d with flags := d.flags ++ added }, s)
      else faultAt .lateFlags place
    | .group added removed => return (d.enter .plain place (withFlags d.flags added removed), s)

def isSpacing (c : Char) : Bool := c == ' ' || (9 ≤ c.toNat && c.toNat ≤ 13)

/-- An element that starts with a character; the character has been taken. -/
def element (d : Draft) (c : Char) (s : Source) : Except PatternError (Draft × Source) := do
  if d.flags.contains .verbose && isSpacing c then return (d, s)
  if d.flags.contains .verbose && c = '#' then
    return (d, (← Source.skipPast '\n' (s.signs.length + 1) s).2)
  if c = '[' then setFrom d s
  else if c = '*' || c = '+' || c = '?' || c = '\x7b' then repetition d c s
  else if c = '.' then
    let items := if d.flags.contains .dotAll then [] else [SetItem.char 10]
    return (d.push (.set ⟨true, items, .none⟩) .item, s)
  else if c = '(' then
    let place := s.place - 1
    let (extended, rest) ← s.take? '?'
    if extended then extension d place rest else capture d none place rest
  else if c = '^' then
    let a : Anchor := if d.flags.contains .multiLine then .lineStart else .textStart
    return (d.push (.anchor a) .anchor, s)
  else if c = '$' then
    let a : Anchor := if d.flags.contains .multiLine then .lineEnd else .lastLineEnd
    return (d.push (.anchor a) .anchor, s)
  else return (d.pushCode c.toNat, s)

def checkAlphabet (d : Draft) : Except PatternError Unit :=
  if d.flags.contains .plain && d.flags.contains .wide then .error .mixedFlags else .ok ()

def ending (d : Draft) (c : Char) (s : Source) : Except PatternError (Draft × Source) :=
  match d.frames with
  | [] =>
    if c = '|' then do return (d.split, ← s.next)
    else do
      checkAlphabet d
      faultAt .unbalancedParenthesis s.place
  | f :: frames =>
    if c = '|' then
      match f.opening, d.finished with
      | .choice _, _ :: _ => faultAt .thirdBranch s.place
      | _, _ => do return (d.split, ← s.next)
    else do return (d.leave f frames, ← s.next)

def Greed.label : Greed → String
  | .most => "MAX_REPEAT"
  | .least => "MIN_REPEAT"
  | .fixed => "POSSESSIVE_REPEAT"

/-- What is wrong with the width of a look behind. -/
def Width.fault? (w : Width) : Option PatternFault :=
  if 0xFFFFFFFF < w.least then some .excessiveWidth
  else if w.least ≠ w.most then some .varyingWidth
  else none

/-- The first fault that shows only in the whole pattern: a look behind whose matches have no single
width, or a repetition where the flags allow none. -/
def Expr.lateFault? (whole : Bool) (known : List (Nat × Width)) : Expr → Option PatternFault
  | .times greed e _ _ =>
    if whole then some (.wholeFlagRepeat greed.label) else e.lateFault? whole known
  | .behind _ _ e => (e.width known).fault?.or (e.lateFault? whole known)
  | .seq a b | .alt a b | .given _ a b =>
    (a.lateFault? whole known).or (b.lateFault? whole known)
  | .group _ e | .ahead _ e | .first e => e.lateFault? whole known
  | .empty | .set _ | .anchor _ | .again .. => none

def finish (d : Draft) : Except PatternError (List Flag × Expr) := do
  match d.frames with
  | f :: _ => faultAt .unterminatedGroup f.place
  | [] =>
    checkAlphabet d
    match d.asked.find? (d.groups < ·.1) with
    | some (n, place) => faultAt (.unknownGroup n) place
    | none => pure ()
    let e := d.choices
    match e.lateFault? (d.flags.contains .whole) d.widths with
    | some f => .error (.fault f none)
    | none => return (d.flags, e)

/-- Reads to the end. Every step takes a sign, so a bound above their number is never used up. -/
def readFrom : Nat → Draft → Source → Except PatternError (List Flag × Expr)
  | 0, d, _ => finish d
  | bound + 1, d, s =>
    match s.signs with
    | [] => finish d
    | ['|'] :: _ => do
      let (d, s) ← ending d '|' s
      readFrom bound d s
    | [')'] :: _ => do
      let (d, s) ← ending d ')' s
      readFrom bound d s
    | ['\\', c] :: _ => do
      let (d, s) ← escape d c (← s.next)
      readFrom bound d s
    | (c :: _) :: _ => do
      let (d, s) ← element d c (← s.next)
      readFrom bound d s
    | [] :: _ => finish d

def readExpr (text : List Char) : Except PatternError (List Flag × Expr) := do
  let s ← Source.ofText text
  readFrom (s.signs.length + 1) .new s

end SuiteLint.Text.Pattern
