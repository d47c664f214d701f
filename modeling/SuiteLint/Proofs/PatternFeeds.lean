import Mathlib.Data.List.Forall2
import SuiteLint.Proofs.LineEnds

/-!
# Patterns that match no feeds

An expression that is made of character sets without feeds, and that asks for no places, is found in a
line followed by feeds exactly if it is found in the line.
-/

namespace SuiteLint.Text.Pattern

def avoidsFeeds (s : CharSet) : Bool := !s.has '\n' && !s.has '\r'

def Expr.avoidsFeeds : Expr → Bool
  | .set s | .times _ (.set s) _ _ => Pattern.avoidsFeeds s
  | .seq a b | .alt a b => a.avoidsFeeds && b.avoidsFeeds
  | _ => false

def Place.Alike (p q : Place) : Prop := ∃ feeds, Feeds feeds ∧ q.after = p.after ++ feeds

def Respects (rest : Rest) : Prop := ∀ p q, Place.Alike p q → (rest p).isSome = (rest q).isSome

variable {p q : Place} {s : CharSet} {rest : Rest}

private theorem has_eq_false {c : Char} (hs : avoidsFeeds s = true) (hc : Check.Line.isFeed c = true) :
    s.has c = false := by
  simp only [avoidsFeeds, Bool.and_eq_true, Bool.not_eq_true'] at hs
  rcases eq_feed hc with rfl | rfl
  · exact hs.1
  · exact hs.2

/-- Either no step is possible at both places, or one that leads to places that are alike. -/
theorem step?_alike (hs : avoidsFeeds s = true) (h : Place.Alike p q) :
    p.step? s = none ∧ q.step? s = none ∨
      ∃ p' q', p.step? s = some p' ∧ q.step? s = some q' ∧ Place.Alike p' q' ∧
        p'.after.length + 1 = p.after.length := by
  obtain ⟨feeds, hfeeds, hq⟩ := h
  rw [Place.step?, Place.step?, hq]
  cases hp : p.after with
  | nil =>
    left
    cases feeds with
    | nil => exact ⟨rfl, rfl⟩
    | cons c rest => simp [has_eq_false hs (hfeeds c List.mem_cons_self)]
  | cons c rest =>
    by_cases hc : s.has c = true
    · right
      refine ⟨_, _, if_pos hc, if_pos hc, ⟨feeds, hfeeds, rfl⟩, rfl⟩
    · left
      simp [hc]

private theorem stretch_of_step?_eq_none (h : p.step? s = none) (n : Nat) (ps : List Place) :
    stretch s n ps p = ps := by
  cases n with
  | zero => rfl
  | succ n => rw [stretch, h]

/-- The bounds may differ where neither of them is reached. -/
theorem stretch_alike (hs : avoidsFeeds s = true) {n m : Nat} {ps qs : List Place}
    (hpq : Place.Alike p q) (hps : List.Forall₂ Place.Alike ps qs)
    (hnm : n = m ∨ p.after.length ≤ n ∧ p.after.length ≤ m) :
    List.Forall₂ Place.Alike (stretch s n ps p) (stretch s m qs q) := by
  induction n generalizing m ps qs p q with
  | zero =>
    rcases step?_alike hs hpq with ⟨-, hq⟩ | ⟨p', q', -, -, -, hlen⟩
    · rw [stretch_of_step?_eq_none hq]
      exact hps
    · obtain rfl : m = 0 := by omega
      exact hps
  | succ n ih =>
    rcases step?_alike hs hpq with ⟨hp, hq⟩ | ⟨p', q', hp, hq, hpq', hlen⟩
    · rw [stretch_of_step?_eq_none hp, stretch_of_step?_eq_none hq]
      exact hps
    · obtain ⟨m, rfl⟩ : ∃ k, m = k + 1 := ⟨m - 1, by omega⟩
      rw [stretch, stretch, hp, hq]
      exact ih hpq' (.cons hpq' hps) (by omega)

theorem isSome_orElse (first : Option Place) (second : Unit → Option Place) :
    (orElse first second).isSome = (first.isSome || (second ()).isSome) := by
  cases first <;> rfl

private theorem firstOf_alike (hrest : Respects rest) {ps qs : List Place}
    (h : List.Forall₂ Place.Alike ps qs) : (firstOf rest ps).isSome = (firstOf rest qs).isSome := by
  induction h with
  | nil => rfl
  | @cons p q ps qs hpq _ ih =>
    rw [firstOf, firstOf, isSome_orElse, isSome_orElse, hrest p q hpq, ih]

theorem choice_alike (hrest : Respects rest) (greed : Greed) (least : Nat) {ps qs : List Place}
    (h : List.Forall₂ Place.Alike ps qs) :
    (if ps.length ≤ least then none else match greed with
      | .most => firstOf rest (ps.take (ps.length - least))
      | .least => firstOf rest (ps.take (ps.length - least)).reverse
      | .fixed => ps.head?.bind rest).isSome =
    (if qs.length ≤ least then none else match greed with
      | .most => firstOf rest (qs.take (qs.length - least))
      | .least => firstOf rest (qs.take (qs.length - least)).reverse
      | .fixed => qs.head?.bind rest).isSome := by
  rw [h.length_eq]
  split
  · rfl
  · cases greed with
    | most => exact firstOf_alike hrest (List.forall₂_take _ h)
    | least => exact firstOf_alike hrest (List.rel_reverse (List.forall₂_take _ h))
    | fixed =>
      cases h with
      | nil => rfl
      | cons hfirst _ => exact hrest _ _ hfirst

theorem setTimes_respects (hs : avoidsFeeds s = true) (hrest : Respects rest) (greed : Greed)
    (least : Nat) (most : Option Nat) : Respects (setTimes greed s least most rest) := by
  intro p q hpq
  have hlen : p.after.length ≤ q.after.length := by
    obtain ⟨feeds, -, hq⟩ := hpq
    rw [hq, List.length_append]
    exact Nat.le_add_right ..
  cases most with
  | none =>
    exact choice_alike hrest greed least
      (stretch_alike hs hpq (.cons hpq .nil) (.inr ⟨Nat.le_refl _, hlen⟩))
  | some n =>
    have hbounds : min n p.after.length = min n q.after.length ∨
        p.after.length ≤ min n p.after.length ∧ p.after.length ≤ min n q.after.length := by
      omega
    exact choice_alike hrest greed least (stretch_alike hs hpq (.cons hpq .nil) hbounds)

/-- By induction on the expression, since each part is followed by what respects the feeds too. -/
theorem run_respects {e : Expr} (he : e.avoidsFeeds = true) (hrest : Respects rest) :
    Respects (e.run rest) := by
  fun_induction Expr.avoidsFeeds e generalizing rest with
  | case1 s =>
    intro p q hpq
    simp only [Expr.run]
    rcases step?_alike he hpq with ⟨hp, hq⟩ | ⟨p', q', hp, hq, hpq', -⟩
    · rw [hp, hq]
    · rw [hp, hq]
      exact hrest p' q' hpq'
  | case2 greed s least most =>
    rw [Expr.run]
    exact setTimes_respects he hrest greed least most
  | case3 a b iha ihb =>
    rw [Bool.and_eq_true] at he
    rw [Expr.run]
    exact iha he.1 (ihb he.2 hrest)
  | case4 a b iha ihb =>
    rw [Bool.and_eq_true] at he
    intro p q hpq
    rw [Expr.run, isSome_orElse, isSome_orElse, iha he.1 hrest p q hpq, ihb he.2 hrest p q hpq]
  | case5 => cases he

theorem foundFrom_append_feeds {e : Expr} (he : e.avoidsFeeds = true) {feeds : List Char}
    (h : Feeds feeds) (offset : Nat) (before s : List Char) :
    e.foundFrom offset before (s ++ feeds) = e.foundFrom offset before s := by
  have hrun : Respects (e.run some) := run_respects he fun _ _ _ => rfl
  induction s generalizing offset before with
  | cons c s ih =>
    rw [List.cons_append, Expr.foundFrom, Expr.foundFrom, ih]
    rw [hrun ⟨offset, before, c :: s, []⟩ ⟨offset, before, c :: (s ++ feeds), []⟩ ⟨feeds, h, rfl⟩]
  | nil =>
    -- Whether there is a match at the end of a text does not depend on what comes before.
    induction feeds generalizing offset before with
    | nil => rfl
    | cons c rest ih =>
      have hend := hrun ⟨offset + 1, c :: before, [], []⟩ ⟨offset, before, [], []⟩ ⟨[], nofun, rfl⟩
      have hhere := hrun ⟨offset, before, [], []⟩ ⟨offset, before, c :: rest, []⟩ ⟨c :: rest, h, rfl⟩
      calc e.foundFrom offset before (c :: rest)
        _ = ((e.run some ⟨offset, before, c :: rest, []⟩).isSome ||
              e.foundFrom (offset + 1) (c :: before) rest) := rfl
        _ = ((e.run some ⟨offset, before, [], []⟩).isSome ||
              (e.run some ⟨offset + 1, c :: before, [], []⟩).isSome) := by
            rw [← hhere, ← List.nil_append rest, ih h.tail, Expr.foundFrom]
        _ = e.foundFrom offset before [] := by rw [hend, Bool.or_self, Expr.foundFrom]

theorem webAddress_append_feeds {feeds : List Char} (h : Feeds feeds) (s : List Char) :
    webAddress.foundIn (s ++ feeds) = webAddress.foundIn s :=
  foundFrom_append_feeds (by decide) h 0 [] s

end SuiteLint.Text.Pattern
