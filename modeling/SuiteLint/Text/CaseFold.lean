import SuiteLint.Text.CaseMap

/-! Characters that differ in case only. -/
namespace SuiteLint.Text

def lowerOne (c : Char) : Char := (lowerChar c).headD c

def upperOne (c : Char) : Char := (upperChar c).headD c

def sharedUpper : List (List Nat) :=
  [[0x69, 0x131], [0x73, 0x17F], [0xB5, 0x3BC], [0x345, 0x3B9, 0x1FBE], [0x390, 0x1FD3],
   [0x3B0, 0x1FE3], [0x3B2, 0x3D0], [0x3B5, 0x3F5], [0x3B8, 0x3D1], [0x3BA, 0x3F0],
   [0x3C0, 0x3D6], [0x3C1, 0x3F1], [0x3C2, 0x3C3], [0x3C6, 0x3D5], [0x432, 0x1C80],
   [0x434, 0x1C81], [0x43E, 0x1C82], [0x441, 0x1C83], [0x442, 0x1C84, 0x1C85], [0x44A, 0x1C86],
   [0x463, 0x1C87], [0x1C88, 0xA64B], [0x1E61, 0x1E9B], [0xFB05, 0xFB06]]

def lowerAlike (c : Char) : List Char :=
  match sharedUpper.find? (·.contains c.toNat) with
  | some codes => codes.map Char.ofNat
  | none => [c]

def CaseRun.sources (r : CaseRun) (c : Char) : List Char :=
  let place := r.run.first + (c.toNat - r.image)
  if r.image ≤ c.toNat && r.run.has place then [Char.ofNat place] else []

def withLower (c : Char) : List Char :=
  (c :: c.toUpper :: Char.ofNat 304 :: toLowerRuns.flatMap (·.sources c)).filter (lowerOne · = c)

def caseVariants (c : Char) : List Char := (lowerAlike (lowerOne c)).flatMap withLower

end SuiteLint.Text
