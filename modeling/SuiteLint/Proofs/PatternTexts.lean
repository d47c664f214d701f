import SuiteLint.Proofs.PatternFeeds

/-!
# The texts that a pattern stands for

Whatever the order in which the ways of going on are tried, an expression is found in a text exactly if one of
the texts that it stands for is a part of it. Those of the pattern for URLs have no blanks.
-/

namespace SuiteLint.Text.Pattern

/-! ## Sets in a row -/

section Rows

variable {s : CharSet}

/-- The places after one character of a set, after two, and so on, up to `bound` of them. -/
def steps (s : CharSet) : Nat → Place → List Place
  | 0, _ => []
  | bound + 1, p =>
    match p.step? s with
    | some q => q :: steps s bound q
    | none => []

theorem stretch_eq_steps (bound : Nat) (found : List Place) (p : Place) :
    stretch s bound found p = (steps s bound p).reverse ++ found := by
  induction bound generalizing found p with
  | zero => rfl
  | succ bound ih =>
    rw [stretch, steps]
    cases p.step? s with
    | none => rfl
    | some q => simp [ih]

theorem step?_of_after_eq_nil {p : Place} (h : p.after = []) : p.step? s = none := by
  rw [Place.step?, h]

theorem step?_of_after_eq_cons {p : Place} {c : Char} {rest : List Char} (h : p.after = c :: rest) :
    p.step? s = if s.has c then some ⟨p.offset + 1, c :: p.before, rest, p.groups⟩ else none := by
  rw [Place.step?, h]

/-- What follows the place that is reached in `count` steps lies behind as many characters of the set. -/
theorem after_getElem?_iff (bound count : Nat) (p : Place) (back : List Char) :
    (∃ q, (p :: steps s bound p)[count]? = some q ∧ q.after = back) ↔
      count ≤ bound ∧
        ∃ front, p.after = front ++ back ∧ (∀ c ∈ front, s.has c = true) ∧ front.length = count := by
  induction count generalizing bound p with
  | zero => simp [List.length_eq_zero_iff]
  | succ count ih =>
    rw [List.getElem?_cons_succ]
    cases bound with
    | zero => simp [steps]
    | succ bound =>
      rw [steps]
      -- The first character decides whether there is a step at all.
      cases hafter : p.after with
      | nil => simp [step?_of_after_eq_nil hafter]
      | cons c rest =>
        rw [step?_of_after_eq_cons hafter]
        by_cases hc : s.has c = true
        · rw [if_pos hc, ih, Nat.succ_le_succ_iff]
          refine and_congr_right fun _ => ?_
          constructor
          · rintro ⟨front, rfl, hall, hlength⟩
            exact ⟨c :: front, rfl, List.forall_mem_cons.mpr ⟨hc, hall⟩, congrArg _ hlength⟩
          · rintro ⟨front, hfront, hall, hlength⟩
            obtain ⟨d, front, rfl⟩ := List.exists_cons_of_length_eq_add_one hlength
            exact ⟨front, (List.cons.inj hfront).2, (List.forall_mem_cons.mp hall).2,
              Nat.succ.inj hlength⟩
        · rw [if_neg hc]
          simp only [List.getElem?_nil, reduceCtorEq, false_and, exists_false, false_iff]
          rintro ⟨-, front, hfront, hall, hlength⟩
          obtain ⟨d, front, rfl⟩ := List.exists_cons_of_length_eq_add_one hlength
          exact hc ((List.cons.inj hfront).1 ▸ hall d List.mem_cons_self)

theorem exists_after_eq_iff (bound least : Nat) (p : Place) (back : List Char) :
    (∃ q ∈ (p :: steps s bound p).drop least, q.after = back) ↔
      ∃ front, p.after = front ++ back ∧ (∀ c ∈ front, s.has c = true) ∧
        least ≤ front.length ∧ front.length ≤ bound := by
  constructor
  · rintro ⟨q, hmem, hback⟩
    obtain ⟨more, hq⟩ := List.mem_iff_getElem?.mp hmem
    rw [List.getElem?_drop] at hq
    obtain ⟨hbound, front, hfront, hall, hlength⟩ :=
      (after_getElem?_iff bound _ p back).mp ⟨q, hq, hback⟩
    exact ⟨front, hfront, hall, by omega, by omega⟩
  · rintro ⟨front, hfront, hall, hleast, hbound⟩
    obtain ⟨more, hmore⟩ := Nat.exists_eq_add_of_le hleast
    obtain ⟨q, hq, hback⟩ :=
      (after_getElem?_iff bound _ p back).mpr ⟨hbound, front, hfront, hall, rfl⟩
    refine ⟨q, List.mem_iff_getElem?.mpr ⟨more, ?_⟩, hback⟩
    rw [List.getElem?_drop, ← hmore, hq]

end Rows

/-! ## Expressions -/

def Expr.isPlain : Expr → Bool
  | .set _ => true
  | .times greed (.set _) _ _ => decide (greed ≠ .fixed)
  | .seq a b | .alt a b => a.isPlain && b.isPlain
  | _ => false

/-- The texts that a plain expression stands for. -/
def Expr.Reads : Expr → List Char → Prop
  | .set s, text => ∃ c, s.has c = true ∧ text = [c]
  | .times _ (.set s) least most, text =>
    (∀ c ∈ text, s.has c = true) ∧ least ≤ text.length ∧ ∀ n ∈ most, text.length ≤ n
  | .seq a b, text => ∃ front back, text = front ++ back ∧ a.Reads front ∧ b.Reads back
  | .alt a b, text => a.Reads text ∨ b.Reads text
  | _, _ => False

def Decides (rest : Rest) (goesOn : List Char → Prop) : Prop :=
  ∀ p, (rest p).isSome = true ↔ goesOn p.after

variable {rest : Rest} {goesOn : List Char → Prop}

private theorem isSome_firstOf_iff (rest : Rest) (ps : List Place) :
    (firstOf rest ps).isSome = true ↔ ∃ p ∈ ps, (rest p).isSome = true := by
  induction ps with
  | nil => simp [firstOf]
  | cons p ps ih => simp [firstOf, isSome_orElse, ih]

/-- As many and as few as possible differ only in what is tried first. -/
theorem isSome_choice_iff {greed : Greed} (hgreed : greed ≠ .fixed) (least : Nat) (rest : Rest)
    (places : List Place) :
    (if places.reverse.length ≤ least then none else match greed with
      | .most => firstOf rest (places.reverse.take (places.reverse.length - least))
      | .least => firstOf rest (places.reverse.take (places.reverse.length - least)).reverse
      | .fixed => places.reverse.head?.bind rest).isSome = true ↔
    ∃ q ∈ places.drop least, (rest q).isSome = true := by
  by_cases hfew : places.reverse.length ≤ least
  · rw [if_pos hfew, List.drop_of_length_le (by rwa [List.length_reverse] at hfew)]
    simp
  · have htake : places.reverse.take (places.reverse.length - least) = (places.drop least).reverse := by
      rw [List.length_reverse, List.reverse_drop]
    rw [if_neg hfew, htake]
    cases greed with
    | most => simp [isSome_firstOf_iff]
    | least => simp [isSome_firstOf_iff]
    | fixed => exact absurd rfl hgreed

theorem isSome_setTimes_iff {greed : Greed} (hgreed : greed ≠ .fixed) (s : CharSet) (least : Nat)
    (most : Option Nat) (rest : Rest) (p : Place) :
    (setTimes greed s least most rest p).isSome = true ↔
      ∃ q ∈ (p :: steps s (most.elim p.after.length (min · p.after.length)) p).drop least,
        (rest q).isSome = true := by
  have hplaces (bound : Nat) : stretch s bound [p] p = (p :: steps s bound p).reverse := by
    rw [stretch_eq_steps, List.reverse_cons]
  cases most with
  | none =>
    simp only [setTimes, hplaces]
    exact isSome_choice_iff hgreed least rest _
  | some n =>
    simp only [setTimes, hplaces]
    exact isSome_choice_iff hgreed least rest _

theorem Decides.set (s : CharSet) (hrest : Decides rest goesOn) :
    Decides ((Expr.set s).run rest) fun text =>
      ∃ front back, text = front ++ back ∧ (Expr.set s).Reads front ∧ goesOn back := by
  intro p
  simp only [Expr.run, Expr.Reads]
  cases hafter : p.after with
  | nil => simp [step?_of_after_eq_nil hafter]
  | cons c text =>
    rw [step?_of_after_eq_cons hafter]
    by_cases hc : s.has c = true
    · rw [if_pos hc, Option.bind_some, hrest]
      constructor
      · intro hback
        exact ⟨[c], text, rfl, ⟨c, hc, rfl⟩, hback⟩
      · rintro ⟨front, back, htext, ⟨d, -, rfl⟩, hback⟩
        rwa [(List.cons.inj htext).2]
    · rw [if_neg hc]
      simp only [Option.bind_none, Option.isSome_none, Bool.false_eq_true, false_iff]
      rintro ⟨front, back, htext, ⟨d, hd, rfl⟩, -⟩
      rw [← (List.cons.inj htext).1] at hd
      exact hc hd

theorem Decides.times {greed : Greed} (hgreed : greed ≠ .fixed) (s : CharSet) (least : Nat)
    (most : Option Nat) (hrest : Decides rest goesOn) :
    Decides ((Expr.times greed (.set s) least most).run rest) fun text => ∃ front back,
      text = front ++ back ∧ (Expr.times greed (.set s) least most).Reads front ∧ goesOn back := by
  intro p
  rw [Expr.run, isSome_setTimes_iff hgreed]
  simp only [hrest _, Expr.Reads]
  constructor
  · rintro ⟨q, hq, hback⟩
    obtain ⟨front, hafter, hall, hleast, hbound⟩ :=
      (exists_after_eq_iff _ least p q.after).mp ⟨q, hq, rfl⟩
    refine ⟨front, q.after, hafter, ⟨hall, hleast, ?_⟩, hback⟩
    rintro n hn
    rw [Option.mem_def.mp hn, Option.elim_some] at hbound
    exact Nat.le_trans hbound (Nat.min_le_left ..)
  · rintro ⟨front, back, hafter, ⟨hall, hleast, hmost⟩, hback⟩
    have hlength : front.length ≤ p.after.length := by
      rw [hafter, List.length_append]
      exact Nat.le_add_right ..
    have hbound : front.length ≤ most.elim p.after.length (min · p.after.length) := by
      cases most with
      | none => exact hlength
      | some n => exact Nat.le_min.mpr ⟨hmost n rfl, hlength⟩
    obtain ⟨q, hq, rfl⟩ :=
      (exists_after_eq_iff _ least p back).mpr ⟨front, hafter, hall, hleast, hbound⟩
    exact ⟨q, hq, hback⟩

/-- A plain expression is matched at a place if what follows starts with a text that it stands for, and
the rest can be matched behind that. -/
theorem Decides.run {e : Expr} (he : e.isPlain = true) (hrest : Decides rest goesOn) :
    Decides (e.run rest) fun text => ∃ front back, text = front ++ back ∧ e.Reads front ∧ goesOn back := by
  fun_induction Expr.isPlain e generalizing rest goesOn with
  | case1 s => exact hrest.set s
  | case2 greed s least most => exact hrest.times (of_decide_eq_true he) s least most
  | case3 a b iha ihb =>
    rw [Bool.and_eq_true] at he
    intro p
    rw [Expr.run, iha he.1 (ihb he.2 hrest)]
    simp only [Expr.Reads]
    constructor
    · rintro ⟨first, -, htext, ha, second, back, rfl, hb, hback⟩
      exact ⟨first ++ second, back, by rw [htext, List.append_assoc], ⟨first, second, rfl, ha, hb⟩, hback⟩
    · rintro ⟨-, back, htext, ⟨first, second, rfl, ha, hb⟩, hback⟩
      exact ⟨first, second ++ back, by rw [htext, List.append_assoc], ha, second, back, rfl, hb, hback⟩
  | case4 a b iha ihb =>
    rw [Bool.and_eq_true] at he
    intro p
    rw [Expr.run, isSome_orElse, Bool.or_eq_true, iha he.1 hrest, ihb he.2 hrest]
    simp only [Expr.Reads, or_and_right, and_or_left, exists_or]
  | case5 => cases he

theorem foundFrom_iff {e : Expr} (he : e.isPlain = true) (offset : Nat) (before text : List Char) :
    e.foundFrom offset before text = true ↔ ∃ part, e.Reads part ∧ part <:+: text := by
  have hrun : Decides (e.run some) fun text => ∃ front back, text = front ++ back ∧ e.Reads front ∧ True :=
    Decides.run he fun _ => by simp
  have hhere (p : Place) : (e.run some p).isSome = true ↔ ∃ part, e.Reads part ∧ part <+: p.after := by
    rw [hrun]
    constructor
    · rintro ⟨front, back, htext, hreads, -⟩
      exact ⟨front, hreads, back, htext.symm⟩
    · rintro ⟨part, hreads, back, htext⟩
      exact ⟨part, back, htext.symm, hreads, trivial⟩
  induction text generalizing offset before with
  | nil => simp [Expr.foundFrom, hhere]
  | cons c text ih =>
    rw [Expr.foundFrom, Bool.or_eq_true, hhere]
    simp only [List.infix_cons_iff, and_or_left, exists_or]
    exact or_congr Iff.rfl (ih _ _)

private theorem foundIn_iff {p : Pattern} (h : p.expr.isPlain = true) (text : List Char) :
    p.foundIn text = true ↔ ∃ part, p.expr.Reads part ∧ part <:+: text :=
  foundFrom_iff h 0 [] text

/-! ## URLs -/

private theorem reads_seq_iff {a b : Expr} {text : List Char} :
    (Expr.seq a b).Reads text ↔ ∃ front back, text = front ++ back ∧ a.Reads front ∧ b.Reads back :=
  Iff.rfl

private theorem reads_char_iff {c : Char} {text : List Char} : (Expr.char c).Reads text ↔ text = [c] := by
  simp [Expr.char, Expr.Reads, CharSet.has, Folding.inItem, SetItem.has, Char.toNat_inj]

theorem reads_optional_iff {c : Char} {text : List Char} :
    (Expr.times .most (.char c) 0 (some 1)).Reads text ↔ text = [] ∨ text = [c] := by
  have hhas (d : Char) : CharSet.has ⟨false, [.char c.toNat], .none⟩ d = true ↔ d = c := by
    simp [CharSet.has, Folding.inItem, SetItem.has, Char.toNat_inj]
  simp only [Expr.char, Expr.Reads, hhas]
  constructor
  · rintro ⟨hall, -, hlength⟩
    match text, hlength 1 rfl with
    | [], _ => exact Or.inl rfl
    | [d], _ => rw [hall d List.mem_cons_self]; exact Or.inr rfl
  · rintro (rfl | rfl)
    · simp
    · simp

/-- An address starts with the name of its protocol, and goes on with characters that are not blank. -/
theorem reads_webAddress_iff {text : List Char} :
    webAddress.expr.Reads text ↔ ∃ secure rest, (secure = [] ∨ secure = ['s']) ∧ rest ≠ [] ∧
      (∀ c ∈ rest, isBlank c = false) ∧ text = "http".toList ++ secure ++ "://".toList ++ rest := by
  have hhas (c : Char) : CharSet.has ⟨false, [.cls true false .blank], .none⟩ c = true ↔
      isBlank c = false := by
    simp [CharSet.has, Folding.inItem, SetItem.has, CharClass.has]
  have hrow (rest : List Char) :
      (Expr.times .most (.set ⟨false, [.cls true false .blank], .none⟩) 1 none).Reads rest ↔
        rest ≠ [] ∧ ∀ c ∈ rest, isBlank c = false := by
    simp only [Expr.Reads, hhas]
    cases rest <;> simp
  simp only [webAddress, reads_seq_iff, reads_char_iff, reads_optional_iff, hrow]
  constructor
  · rintro ⟨front, rest, rfl, ⟨_, _, rfl, ⟨_, _, rfl, ⟨_, _, rfl, ⟨_, secure, rfl, ⟨_, _, rfl, ⟨_, _, rfl,
      ⟨_, _, rfl, rfl, rfl⟩, rfl⟩, rfl⟩, hsecure⟩, rfl⟩, rfl⟩, rfl⟩, hrest⟩
    exact ⟨secure, rest, hsecure, hrest.1, hrest.2, by simp⟩
  · rintro ⟨secure, rest, hsecure, hne, hall, rfl⟩
    exact ⟨"http".toList ++ secure ++ "://".toList, rest, rfl,
      ⟨"http".toList ++ secure ++ ":/".toList, ['/'], by simp,
        ⟨"http".toList ++ secure ++ ":".toList, ['/'], by simp,
          ⟨"http".toList ++ secure, [':'], by simp,
            ⟨"http".toList, secure, rfl, ⟨['h', 't', 't'], ['p'], rfl,
              ⟨['h', 't'], ['t'], rfl, ⟨['h'], ['t'], rfl, rfl, rfl⟩, rfl⟩, rfl⟩, hsecure⟩, rfl⟩, rfl⟩, rfl⟩,
      hne, hall⟩

def HasWebAddress (text : List Char) : Prop :=
  ∃ scheme ∈ ["http://".toList, "https://".toList], ∃ c, isBlank c = false ∧ scheme ++ [c] <:+: text

theorem webAddress_foundIn_iff (text : List Char) :
    webAddress.foundIn text = true ↔ HasWebAddress text := by
  rw [foundIn_iff (by decide)]
  simp only [reads_webAddress_iff]
  constructor
  · rintro ⟨-, ⟨secure, rest, hsecure, hne, hall, rfl⟩, hpart⟩
    obtain ⟨c, more, rfl⟩ := List.exists_cons_of_ne_nil hne
    have hstart : "http".toList ++ secure ++ "://".toList ++ [c] <:+:
        "http".toList ++ secure ++ "://".toList ++ c :: more := ⟨[], more, by simp⟩
    refine ⟨"http".toList ++ secure ++ "://".toList, ?_, c, hall c List.mem_cons_self,
      hstart.trans hpart⟩
    rcases hsecure with rfl | rfl
    · exact List.mem_cons_self
    · exact List.mem_cons_of_mem _ List.mem_cons_self
  · rintro ⟨scheme, hscheme, c, hc, hpart⟩
    have hlast : [c] ≠ [] ∧ ∀ d ∈ [c], isBlank d = false := by simpa using hc
    simp only [List.mem_cons, List.not_mem_nil, or_false] at hscheme
    rcases hscheme with rfl | rfl
    · exact ⟨_, ⟨[], [c], Or.inl rfl, hlast.1, hlast.2, rfl⟩, hpart⟩
    · exact ⟨_, ⟨['s'], [c], Or.inr rfl, hlast.1, hlast.2, rfl⟩, hpart⟩

instance (text : List Char) : Decidable (HasWebAddress text) :=
  decidable_of_iff _ (webAddress_foundIn_iff text)

/-- No address reaches over a blank, and none starts where there is no slash. -/
theorem hasWebAddress_append_iff {text tail : List Char} (hblank : ∀ c ∈ tail.head?, isBlank c = true)
    (hslash : '/' ∉ tail) : HasWebAddress (text ++ tail) ↔ HasWebAddress text := by
  constructor
  · have hschemes : ∀ scheme ∈ ["http://".toList, "https://".toList],
        '/' ∈ scheme ∧ scheme.all (fun d => !isBlank d) = true := by
      decide
    rintro ⟨scheme, hscheme, c, hc, hpart⟩
    obtain ⟨hmem, hfull⟩ := hschemes scheme hscheme
    refine ⟨scheme, hscheme, c, hc, ?_⟩
    rcases List.infix_append_iff.mp hpart with hfront | hback | ⟨first, second, heq, hfirst, hsecond⟩
    · exact hfront
    · exact absurd (hback.subset (List.mem_append_left [c] hmem)) hslash
    · cases second with
      | nil =>
        rw [heq, List.append_nil]
        exact hfirst.isInfix
      | cons d second =>
        obtain ⟨more, rfl⟩ := hsecond
        have hd : d ∈ scheme ++ [c] := by
          rw [heq]
          exact List.mem_append_right first List.mem_cons_self
        have hnot : isBlank d = false := by
          rcases List.mem_append.mp hd with hd | hd
          · simpa using List.all_eq_true.mp hfull d hd
          · rw [List.mem_singleton.mp hd]
            exact hc
        rw [hblank d rfl] at hnot
        cases hnot
  · rintro ⟨scheme, hscheme, c, hc, hpart⟩
    exact ⟨scheme, hscheme, c, hc, hpart.trans (List.prefix_append text tail).isInfix⟩

end SuiteLint.Text.Pattern
