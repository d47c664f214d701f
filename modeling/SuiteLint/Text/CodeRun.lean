/-! Sets of code points written as runs of equally spaced members. -/
namespace SuiteLint.Text

/-- The code points from `first` to `last`, each `step` after the one before. -/
structure CodeRun where
  first : Nat
  last : Nat
  step : Nat
  deriving DecidableEq

def CodeRun.has (r : CodeRun) (n : Nat) : Bool :=
  r.first ≤ n && n ≤ r.last && (n - r.first) % r.step == 0

/-- Runs by `step`, each told by its distance from the end of the run before and by its extent. -/
def runsBy (step : Nat) (rows : List (Nat × Nat)) : List CodeRun :=
  after 0 rows
where
  after (reached : Nat) : List (Nat × Nat) → List CodeRun
    | [] => []
    | (gap, extent) :: rest =>
      let first := reached + gap
      ⟨first, first + extent, step⟩ :: after (first + extent) rest

/-- Runs of one member, each told by its distance from the one before. -/
def singles (gaps : List Nat) : List CodeRun := runsBy 1 (gaps.map (·, 0))

def inRuns (runs : List CodeRun) (c : Char) : Bool :=
  runs.any (·.has c.toNat)

end SuiteLint.Text
