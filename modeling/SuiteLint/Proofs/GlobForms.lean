import SuiteLint.Proofs.TextParts
import SuiteLint.Text.Glob

/-!
# The texts that a glob stands for

Globs are matched by a table, from the last piece to the first. Here the form of a text is said by the glob
as it is written, sign by sign, and the table is shown to answer just that.
-/

namespace SuiteLint.Text

/-- A text has the form of a glob. A star stands for any text, a question mark for any character and a
bracket that is closed for a character of its set; all other characters stand for themselves. -/
inductive Fits : List Char → List Char → Prop where
  | nil : Fits [] []
  | star (part : List Char) {glob rest} (tail : Fits glob rest) : Fits ('*' :: glob) (part ++ rest)
  | mark (c : Char) {glob rest} (tail : Fits glob rest) : Fits ('?' :: glob) (c :: rest)
  | set {c : Char} {glob body after rest} (closed : Glob.bracketBody glob = some (body, after))
      (stands : (Glob.bracketSet body).stands c = true) (tail : Fits after rest) :
      Fits ('[' :: glob) (c :: rest)
  | bracket {glob rest} (isOpen : Glob.bracketBody glob = none) (tail : Fits glob rest) :
      Fits ('[' :: glob) ('[' :: rest)
  | char {c : Char} {glob rest} (plain : c ∉ ['*', '?', '[']) (tail : Fits glob rest) :
      Fits (c :: glob) (c :: rest)

namespace Glob

/-! ## The table of tails -/

theorem orLater_ne_nil {bs : List Bool} (h : bs ≠ []) : orLater bs ≠ [] := by
  obtain ⟨b, bs, rfl⟩ := List.exists_cons_of_ne_nil h
  rw [orLater]
  split <;> exact List.cons_ne_nil _ _

theorem orLater_cons (b : Bool) {bs : List Bool} (h : bs ≠ []) :
    orLater (b :: bs) = (b || (orLater bs).headD false) :: orLater bs := by
  obtain ⟨later, more, hlater⟩ := List.exists_cons_of_ne_nil (orLater_ne_nil h)
  rw [orLater, hlater]
  rfl

theorem afterPiece_cons (piece : Piece) (c : Char) (s : List Char) (b : Bool) {bs : List Bool}
    (h : bs ≠ []) :
    afterPiece piece (c :: s) (b :: bs) =
      (piece.stands c && bs.headD false) :: afterPiece piece s bs := by
  obtain ⟨next, more, rfl⟩ := List.exists_cons_of_ne_nil h
  rfl

theorem acceptedTails_piece {piece : Piece} (h : piece ≠ .any) (s : List Char) (g : Glob) :
    acceptedTails s (piece :: g) = afterPiece piece s (acceptedTails s g) := by
  cases piece with
  | any => exact absurd rfl h
  | _ => rfl

@[simp] theorem acceptedTails_ne_nil (s : List Char) (g : Glob) : acceptedTails s g ≠ [] := by
  induction g with
  | nil => cases s <;> exact List.cons_ne_nil _ _
  | cons piece g ih =>
    by_cases hany : piece = .any
    · rw [hany]
      exact orLater_ne_nil ih
    · rw [acceptedTails_piece hany]
      unfold afterPiece
      split <;> exact List.cons_ne_nil _ _

@[simp] theorem acceptedTails_cons (c : Char) (s : List Char) (g : Glob) :
    acceptedTails (c :: s) g = accepts g (c :: s) :: acceptedTails s g := by
  suffices h : ∃ b, acceptedTails (c :: s) g = b :: acceptedTails s g by
    obtain ⟨b, hb⟩ := h
    rw [accepts, hb]
    rfl
  induction g with
  | nil => exact ⟨false, rfl⟩
  | cons piece g ih =>
    obtain ⟨b, hb⟩ := ih
    have hne := acceptedTails_ne_nil s g
    by_cases hany : piece = .any
    · rw [hany, acceptedTails, hb, orLater_cons b hne]
      exact ⟨_, rfl⟩
    · rw [acceptedTails_piece hany, hb, afterPiece_cons piece c s b hne, acceptedTails_piece hany]
      exact ⟨_, rfl⟩

@[simp] theorem acceptedTails_nil (g : Glob) : acceptedTails [] g = [accepts g []] := by
  suffices h : ∃ b, acceptedTails [] g = [b] by
    obtain ⟨b, hb⟩ := h
    rw [accepts, hb]
    rfl
  induction g with
  | nil => exact ⟨true, rfl⟩
  | cons piece g ih =>
    obtain ⟨b, hb⟩ := ih
    by_cases hany : piece = .any
    · exact ⟨b, by rw [hany, acceptedTails, hb]; rfl⟩
    · exact ⟨false, acceptedTails_piece hany [] g⟩

/-! ## What the table answers -/

private theorem accepts_nil_iff {s : List Char} : accepts [] s = true ↔ s = [] := by
  cases s with
  | nil => exact ⟨fun _ => rfl, fun _ => rfl⟩
  | cons c s => exact ⟨fun h => absurd h Bool.false_ne_true, fun h => absurd h (List.cons_ne_nil c s)⟩

theorem accepts_any_iff {g : Glob} {s : List Char} :
    accepts (.any :: g) s = true ↔ ∃ part rest, s = part ++ rest ∧ accepts g rest = true := by
  induction s with
  | nil =>
    have hsame : accepts (.any :: g) [] = accepts g [] := by
      rw [accepts, acceptedTails, acceptedTails_nil]
      rfl
    rw [hsame]
    constructor
    · exact fun h => ⟨[], [], rfl, h⟩
    · rintro ⟨part, rest, hs, hrest⟩
      rwa [(List.append_eq_nil_iff.mp hs.symm).2] at hrest
  | cons c s ih =>
    have hcons : accepts (.any :: g) (c :: s) = (accepts g (c :: s) || accepts (.any :: g) s) := by
      rw [accepts, acceptedTails, acceptedTails_cons, orLater_cons _ (acceptedTails_ne_nil s g)]
      rfl
    rw [hcons, Bool.or_eq_true, ih]
    constructor
    · rintro (hall | ⟨part, rest, rfl, hrest⟩)
      · exact ⟨[], _, rfl, hall⟩
      · exact ⟨c :: part, rest, rfl, hrest⟩
    · rintro ⟨part, rest, hs, hrest⟩
      cases part with
      | nil =>
        rw [List.nil_append] at hs
        exact Or.inl (hs ▸ hrest)
      | cons d part => exact Or.inr ⟨part, rest, (List.cons.inj hs).2, hrest⟩

theorem accepts_piece_iff {piece : Piece} (h : piece ≠ .any) {g : Glob} {s : List Char} :
    accepts (piece :: g) s = true ↔
      ∃ c rest, s = c :: rest ∧ piece.stands c = true ∧ accepts g rest = true := by
  cases s with
  | nil =>
    have hnone : accepts (piece :: g) [] = false := by
      rw [accepts, acceptedTails_piece h]
      rfl
    rw [hnone]
    constructor
    · exact fun hfalse => absurd hfalse Bool.false_ne_true
    · rintro ⟨c, rest, hs, -⟩
      cases hs
  | cons c s =>
    have hcons : accepts (piece :: g) (c :: s) = (piece.stands c && accepts g s) := by
      rw [accepts, acceptedTails_piece h, acceptedTails_cons,
        afterPiece_cons _ _ _ _ (acceptedTails_ne_nil s g)]
      rfl
    rw [hcons, Bool.and_eq_true]
    constructor
    · exact fun hboth => ⟨c, s, rfl, hboth⟩
    · rintro ⟨d, rest, hs, hboth⟩
      obtain ⟨rfl, rfl⟩ := List.cons.inj hs
      exact hboth

/-! ## Reading a glob -/

theorem eq_of_bracketBody {s body after : List Char} (h : bracketBody s = some (body, after)) :
    s = body ++ ']' :: after := by
  unfold bracketBody at h
  split at h
  next lead tail hlead =>
  split at h
  · next inner rest hinner =>
    obtain ⟨rfl, rfl⟩ := Prod.mk.inj (Option.some.inj h)
    have hs : s = lead ++ tail := by
      split at hlead <;> obtain ⟨rfl, rfl⟩ := Prod.mk.inj hlead <;> rfl
    rw [hs, (cutAt_eq_some_iff.mp hinner).1, List.append_assoc]
  · cases h

private theorem bracketSet_ne_any (body : List Char) : bracketSet body ≠ .any := by
  unfold bracketSet
  generalize (if body.contains '-' then _ else _ : List (List Char)) = parts
  dsimp only
  split <;> exact Piece.noConfusion

end Glob

/-! ## The form of a text, sign by sign -/

namespace Fits

variable {glob s : List Char}

private theorem nil_iff : Fits [] s ↔ s = [] := by
  constructor
  · rintro ⟨⟩
    rfl
  · rintro rfl
    exact .nil

theorem star_iff : Fits ('*' :: glob) s ↔ ∃ part rest, s = part ++ rest ∧ Fits glob rest := by
  constructor
  · intro h
    cases h with
    | star part tail => exact ⟨part, _, rfl, tail⟩
    | char plain _ => exact absurd (by decide) plain
  · rintro ⟨part, rest, rfl, tail⟩
    exact .star part tail

theorem mark_iff : Fits ('?' :: glob) s ↔ ∃ c rest, s = c :: rest ∧ Fits glob rest := by
  constructor
  · intro h
    cases h with
    | mark c tail => exact ⟨c, _, rfl, tail⟩
    | char plain _ => exact absurd (by decide) plain
  · rintro ⟨c, rest, rfl, tail⟩
    exact .mark c tail

theorem set_iff {body after : List Char} (hclosed : Glob.bracketBody glob = some (body, after)) :
    Fits ('[' :: glob) s ↔
      ∃ c rest, s = c :: rest ∧ (Glob.bracketSet body).stands c = true ∧ Fits after rest := by
  constructor
  · intro h
    cases h with
    | set closed stands tail =>
      obtain ⟨rfl, rfl⟩ := Prod.mk.inj (Option.some.inj (closed.symm.trans hclosed))
      exact ⟨_, _, rfl, stands, tail⟩
    | bracket isOpen _ =>
      rw [hclosed] at isOpen
      cases isOpen
    | char plain _ => exact absurd (by decide) plain
  · rintro ⟨c, rest, rfl, stands, tail⟩
    exact .set hclosed stands tail

theorem bracket_iff (hopen : Glob.bracketBody glob = none) :
    Fits ('[' :: glob) s ↔ ∃ rest, s = '[' :: rest ∧ Fits glob rest := by
  constructor
  · intro h
    cases h with
    | set closed _ _ =>
      rw [hopen] at closed
      cases closed
    | bracket _ tail => exact ⟨_, rfl, tail⟩
    | char plain _ => exact absurd (by decide) plain
  · rintro ⟨rest, rfl, tail⟩
    exact .bracket hopen tail

theorem char_iff {c : Char} (hplain : c ∉ ['*', '?', '[']) :
    Fits (c :: glob) s ↔ ∃ rest, s = c :: rest ∧ Fits glob rest := by
  constructor
  · intro h
    cases h with
    | char _ tail => exact ⟨_, rfl, tail⟩
    | _ => exact absurd (by decide) hplain
  · rintro ⟨rest, rfl, tail⟩
    exact .char hplain tail

end Fits

namespace Glob

theorem accepts_char_iff {c : Char} {g : Glob} {s : List Char} :
    accepts (.char c :: g) s = true ↔ ∃ rest, s = c :: rest ∧ accepts g rest = true := by
  rw [accepts_piece_iff Piece.noConfusion]
  constructor
  · rintro ⟨d, rest, rfl, hstands, hrest⟩
    exact ⟨rest, by rw [eq_of_beq hstands], hrest⟩
  · rintro ⟨rest, rfl, hrest⟩
    exact ⟨c, rest, rfl, beq_self_eq_true c, hrest⟩

/-- A glob that is read within enough steps accepts the texts of its form. The steps bound the length of
what is still to be read, of which a set takes more than its first sign. -/
theorem accepts_parseWithin_iff {fuel : Nat} {glob s : List Char} (h : glob.length ≤ fuel) :
    (parseWithin fuel glob).accepts s = true ↔ Fits glob s := by
  induction fuel generalizing glob s with
  | zero =>
    obtain rfl : glob = [] := List.length_eq_zero_iff.mp (Nat.le_zero.mp h)
    rw [parseWithin, accepts_nil_iff, Fits.nil_iff]
  | succ fuel ih =>
    cases glob with
    | nil => rw [parseWithin, accepts_nil_iff, Fits.nil_iff]
    | cons c glob =>
      have hglob : glob.length ≤ fuel := Nat.le_of_succ_le_succ h
      by_cases hstar : c = '*'
      · rw [hstar, parseWithin, accepts_any_iff, Fits.star_iff]
        simp only [ih hglob]
      by_cases hmark : c = '?'
      · rw [hmark, parseWithin, accepts_piece_iff Piece.noConfusion, Fits.mark_iff]
        simp only [ih hglob, Piece.stands, true_and]
      by_cases hbracket : c = '['
      · rw [hbracket]
        cases hbody : bracketBody glob with
        | none =>
          rw [parseWithin, hbody, accepts_char_iff, Fits.bracket_iff hbody]
          simp only [ih hglob]
        | some found =>
          obtain ⟨body, after⟩ := found
          have hafter : after.length ≤ fuel := by
            have hlength := congrArg List.length (eq_of_bracketBody hbody)
            rw [List.length_append, List.length_cons] at hlength
            omega
          rw [parseWithin, hbody, accepts_piece_iff (bracketSet_ne_any body), Fits.set_iff hbody]
          simp only [ih hafter]
      · have hplain : c ∉ ['*', '?', '['] := by simp [hstar, hmark, hbracket]
        rw [parseWithin, accepts_char_iff, Fits.char_iff hplain]
        · simp only [ih hglob]
        · exact hstar
        · exact hmark
        · exact hbracket

theorem accepts_parse_iff (glob s : List Char) : (parse glob).accepts s = true ↔ Fits glob s :=
  accepts_parseWithin_iff (Nat.le_refl _)

end Glob

end SuiteLint.Text
