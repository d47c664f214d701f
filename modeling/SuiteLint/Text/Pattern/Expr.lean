import SuiteLint.Text.Blank
import SuiteLint.Text.CaseFold
import SuiteLint.Text.Digit
import SuiteLint.Text.Word

/-! The expressions that search patterns are made of. -/
namespace SuiteLint.Text

inductive CharClass where
  | digit | blank | word
  deriving DecidableEq

def CharClass.has (c : Char) : CharClass → Bool
  | .digit => isDecimal c
  | .blank => isBlank c
  | .word => isWord c

def CharClass.hasPlain (c : Char) : CharClass → Bool
  | .digit => c.isDigit
  | .blank => c == ' ' || (9 ≤ c.toNat && c.toNat ≤ 13)
  | .word => c.isAlphanum || c == '_'

inductive SetItem where
  | char (code : Nat)
  | span (first last : Nat)
  | cls (negated plain : Bool) (c : CharClass)
  deriving DecidableEq

def SetItem.has (c : Char) : SetItem → Bool
  | .char code => c.toNat == code
  | .span first last => first ≤ c.toNat && c.toNat ≤ last
  | .cls negated plain k => (if plain then k.hasPlain c else k.has c) != negated

/-- Whether characters that differ in case only count as equal. -/
inductive Folding where
  | none | ascii | full
  deriving DecidableEq

namespace Folding

/-- The form by which characters are compared. -/
def fold : Folding → Char → Char
  | none, c => c
  | ascii, c => c.toLower
  | full, c => lowerOne c

/-- Whether some character that counts as `c` is in the item. Beyond the first plane, a single
character of a set stands for itself, and a span for the members in either case. -/
def inItem (f : Folding) (c : Char) (item : SetItem) : Bool :=
  match f, item with
  | none, _ => item.has c
  | _, .cls .. => item.has (f.fold c)
  | ascii, _ => item.has c.toLower || item.has c.toUpper
  | full, .char code =>
    if code < 65536 then (caseVariants c).any item.has else (lowerOne c).toNat == code
  | full, .span _ last =>
    (caseVariants c).any (fun d => d.toNat < 65536 && item.has d) ||
      (65536 ≤ last && (item.has (lowerOne c) || item.has (upperOne (lowerOne c))))

end Folding

structure CharSet where
  negated : Bool
  items : List SetItem
  folding : Folding
  deriving DecidableEq

def CharSet.has (s : CharSet) (c : Char) : Bool := s.items.any (s.folding.inItem c) != s.negated

namespace Pattern

inductive Anchor where
  | textStart | lineStart | textEnd | lineEnd
  /-- The end of the text, or before a line feed there. -/
  | lastLineEnd
  | wordEdge (negated plain : Bool)
  deriving DecidableEq

/-- In which order the numbers of repetitions are tried. -/
inductive Greed where
  | most | least
  /-- As many as possible, and no fewer later on. -/
  | fixed
  deriving DecidableEq

inductive Expr where
  | empty
  | set (s : CharSet)
  | seq (a b : Expr)
  | alt (a b : Expr)
  | times (greed : Greed) (e : Expr) (least : Nat) (most : Option Nat)
  | anchor (a : Anchor)
  | group (n : Nat) (e : Expr)
  /-- What a group has matched, once more. -/
  | again (n : Nat) (folding : Folding)
  /-- One of two expressions, by whether a group has matched. -/
  | given (n : Nat) (yes no : Expr)
  | ahead (negated : Bool) (e : Expr)
  | behind (negated : Bool) (width : Nat) (e : Expr)
  /-- The first match of an expression and no other. -/
  | first (e : Expr)
  deriving DecidableEq

def Expr.char (c : Char) : Expr := .set ⟨false, [.char c.toNat], .none⟩

end Pattern

end SuiteLint.Text
