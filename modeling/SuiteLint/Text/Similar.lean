import SuiteLint.Text.Find

/-! How much two texts have in common: the total length of the longest common runs, taken again on
both sides of the longest one. -/
namespace SuiteLint.Text

def popular (word : List Char) : List Char :=
  if word.length < 200 then []
  else word.filter fun c => word.length / 100 + 1 < word.count c

/-- For every place of `b`, the length of the common run that ends there and at the next `x` of the
other text, given the lengths for the place before it. -/
def runRow (common : List Char) (x : Char) : Nat → List Char → List Nat → List Nat
  | _, [], _ => []
  | before, y :: b, row =>
    (if x == y && !common.contains y then before + 1 else 0) ::
      runRow common x (row.headD 0) b row.tail

/-- A common run: where it starts in both texts, and its length. -/
structure Run where
  left : Nat
  right : Nat
  size : Nat
  deriving DecidableEq

def bestInRow (i : Nat) : Nat → Run → List Nat → Run
  | _, best, [] => best
  | j, best, k :: row =>
    bestInRow i (j + 1) (if best.size < k then ⟨i + 1 - k, j + 1 - k, k⟩ else best) row

def longestFrom (common b : List Char) : Nat → Run → List Nat → List Char → Run
  | _, best, _, [] => best
  | i, best, row, x :: a =>
    let row' := runRow common x 0 b row
    longestFrom common b (i + 1) (bestInRow i 0 best row') row' a

def sharedLength : List Char → List Char → Nat
  | x :: a, y :: b => if x == y then sharedLength a b + 1 else 0
  | _, _ => 0

def longestRun (common a b : List Char) : Run :=
  let best := longestFrom common b 0 ⟨0, 0, 0⟩ [] a
  let back := sharedLength (a.take best.left).reverse (b.take best.right).reverse
  let forth := sharedLength (a.drop (best.left + best.size)) (b.drop (best.right + best.size))
  ⟨best.left - back, best.right - back, best.size + back + forth⟩

/-- The number of characters in common runs. -/
def matched (common : List Char) (a b : List Char) : Nat :=
  match longestRun common a b with
  | ⟨left, right, size⟩ =>
    if _h : 0 < size ∧ left + size ≤ a.length then
      size + matched common (a.take left) (b.take right) +
        matched common (a.drop (left + size)) (b.drop (right + size))
    else 0
termination_by a.length
decreasing_by
  · rw [List.length_take]; omega
  · rw [List.length_drop]; omega

/-- The likeness of a text to a word: twice the matched characters out of all characters. -/
structure Likeness where
  matched : Nat
  total : Nat
  deriving DecidableEq

def likeness (word s : List Char) : Likeness :=
  ⟨matched (popular word) s word, s.length + word.length⟩

namespace Likeness

def reaches (l : Likeness) (hundredths : Nat) : Bool :=
  l.total * hundredths ≤ 2 * l.matched * 100

def less (l m : Likeness) : Bool := l.matched * m.total < m.matched * l.total

end Likeness

def requiredLikeness (word : List Char) : Nat := min 85 (50 + 3 * word.length)

def hundredths (n : Nat) : String :=
  "0." ++ (if n < 10 then "0" else "") ++ toString n

def betterMatch (x y : Likeness × String) : Bool :=
  y.1.less x.1 || (!x.1.less y.1 && !(x.2 < y.2 : Bool))

def closeTo (word : String) (texts : List String) (most : Nat) : List String :=
  if word.isEmpty then []
  else
    let scored := texts.map fun t => (likeness word.toList t.toList, t)
    let close := scored.filter fun s => s.1.reaches (requiredLikeness word.toList)
    ((close.mergeSort betterMatch).take most).map (·.2)

end SuiteLint.Text
