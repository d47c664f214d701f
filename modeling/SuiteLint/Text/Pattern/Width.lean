import SuiteLint.Text.Pattern.Expr

/-! How many characters a match of an expression has. -/
namespace SuiteLint.Text.Pattern

/-- The fewest and the most characters of a match. -/
structure Width where
  least : Nat
  most : Nat
  deriving DecidableEq

namespace Width

/-- The number that stands for every greater one. -/
def limit : Nat := Nat.pow 2 64

def make (least most : Nat) : Width := ⟨min least limit, min most limit⟩

def zero : Width := ⟨0, 0⟩

def add (a b : Width) : Width := make (a.least + b.least) (a.most + b.most)

def either (a b : Width) : Width := ⟨min a.least b.least, max a.most b.most⟩

def times (w : Width) (least : Nat) : Option Nat → Width
  | some n => make (w.least * least) (w.most * n)
  | none => make (w.least * least) (if w.most = 0 then 0 else limit)

end Width

/-- The width of an expression, by the widths of the groups that it refers to. -/
def Expr.width (known : List (Nat × Width)) : Expr → Width
  | .empty | .anchor _ | .ahead .. | .behind .. => .zero
  | .set _ => ⟨1, 1⟩
  | .seq a b => (a.width known).add (b.width known)
  | .alt a b => (a.width known).either (b.width known)
  | .times _ e least most => (e.width known).times least most
  | .group _ e | .first e => e.width known
  | .again n _ => (known.lookup n).getD .zero
  | .given _ yes no => (yes.width known).either (no.width known)

end SuiteLint.Text.Pattern
