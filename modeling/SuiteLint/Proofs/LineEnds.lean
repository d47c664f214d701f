import SuiteLint.Check.IgnoredData
import SuiteLint.Check.Line
import SuiteLint.Proofs.TextParts

/-!
# Feeds at the end of a line

No reader of raw lines sees the line feeds and carriage returns at the end of a line: what it finds in
a line followed by feeds is what it finds in the line.
-/

namespace SuiteLint

def Text.Feeds (s : List Char) : Prop := ∀ c ∈ s, Check.Line.isFeed c = true

variable {feeds : List Char}

namespace Text

theorem eq_feed {c : Char} (h : Check.Line.isFeed c = true) : c = '\n' ∨ c = '\r' := by
  simpa [Check.Line.isFeed] using h

theorem Feeds.head {c : Char} {s : List Char} (h : Feeds (c :: s)) : c = '\n' ∨ c = '\r' :=
  eq_feed (h c List.mem_cons_self)

theorem Feeds.tail {c : Char} {s : List Char} (h : Feeds (c :: s)) : Feeds s :=
  fun d hd => h d (List.mem_cons_of_mem c hd)

theorem takeWhile_append_feeds (h : Feeds feeds) {p : Char → Bool} (hn : p '\n' = false)
    (hr : p '\r' = false) (s : List Char) : (s ++ feeds).takeWhile p = s.takeWhile p := by
  induction s with
  | cons c s ih => by_cases hc : p c = true <;> simp [hc, ih]
  | nil =>
    cases feeds with
    | nil => rfl
    | cons c rest => rcases h.head with rfl | rfl <;> simp [hn, hr]

theorem dropWhile_append_feeds (h : Feeds feeds) {p : Char → Bool} (hn : p '\n' = false)
    (hr : p '\r' = false) (s : List Char) :
    (s ++ feeds).dropWhile p = s.dropWhile p ++ feeds := by
  induction s with
  | cons c s ih => by_cases hc : p c = true <;> simp [hc, ih]
  | nil =>
    cases feeds with
    | nil => rfl
    | cons c rest => rcases h.head with rfl | rfl <;> simp [hn, hr]

theorem dropEndWhile_append_feeds (h : Feeds feeds) {p : Char → Bool} (hn : p '\n' = true)
    (hr : p '\r' = true) (s : List Char) : dropEndWhile p (s ++ feeds) = dropEndWhile p s := by
  have hall : ∀ c ∈ feeds.reverse, p c = true := by
    intro c hc
    rcases eq_feed (h c (List.mem_reverse.mp hc)) with rfl | rfl <;> assumption
  rw [dropEndWhile, List.reverse_append, List.dropWhile_append_of_pos hall, dropEndWhile]

theorem isPrefixOf_append_feeds (h : Feeds feeds) {part : List Char}
    (hpart : part.all (!Check.Line.isFeed ·) = true) (s : List Char) :
    part.isPrefixOf (s ++ feeds) = part.isPrefixOf s := by
  induction part generalizing s with
  | nil => simp
  | cons d part ih =>
    simp only [List.all_cons, Bool.and_eq_true, Bool.not_eq_true'] at hpart
    cases s with
    | cons c s => simp [List.isPrefixOf, ih hpart.2]
    | nil =>
      cases feeds with
      | nil => rfl
      | cons c rest =>
        have hne : (d == c) = false := by
          rw [beq_eq_false_iff_ne]
          rintro rfl
          simp [h d List.mem_cons_self] at hpart
        simp [List.isPrefixOf, hne]

theorem after?_append_feeds (h : Feeds feeds) {part : List Char}
    (hpart : part.all (!Check.Line.isFeed ·) = true) (s : List Char) :
    after? part (s ++ feeds) = (after? part s).map (· ++ feeds) := by
  cases hs : after? part s with
  | some rest =>
    obtain rfl := after?_eq_some_iff.mp hs
    exact after?_eq_some_iff.mpr (List.append_assoc ..)
  | none =>
    have hs : ¬ part.isPrefixOf s = true := fun hp => by simp [after?, hp] at hs
    simp [after?, isPrefixOf_append_feeds h hpart, hs]

private theorem has_cons (part : List Char) (c : Char) (rest : List Char) :
    has part (c :: rest) = (part.isPrefixOf (c :: rest) || has part rest) := by
  by_cases h : part.isPrefixOf (c :: rest) = true <;> simp [has, find, h]

theorem has_append_feeds (h : Feeds feeds) {part : List Char} (hne : part ≠ [])
    (hpart : part.all (!Check.Line.isFeed ·) = true) (s : List Char) :
    has part (s ++ feeds) = has part s := by
  induction s with
  | cons c s ih =>
    rw [List.cons_append, has_cons, has_cons, ih, ← List.cons_append,
      isPrefixOf_append_feeds h hpart]
  | nil =>
    have hnil : has part [] = false := by simp [has, find, hne]
    have hpre : part.isPrefixOf [] = false := by
      cases part with
      | nil => exact absurd rfl hne
      | cons d part => rfl
    rw [hnil, List.nil_append]
    induction feeds with
    | nil => exact hnil
    | cons c rest ih =>
      have hc := isPrefixOf_append_feeds h hpart []
      rw [List.nil_append, hpre] at hc
      rw [has_cons, hc, ih h.tail]
      rfl

def skipOne (c : Char) : List Char → List Char
  | [] => []
  | d :: rest => if d = c then rest else d :: rest

theorem skipOne_blank (s : List Char) :
    skipOne ' ' s = match s with | ' ' :: more => more | more => more := by
  cases s with
  | nil => rfl
  | cons c rest => by_cases hc : c = ' ' <;> simp [skipOne, hc]

private theorem skipOne_sign (s : List Char) :
    skipOne '=' s = match s with | '=' :: more => more | more => more := by
  cases s with
  | nil => rfl
  | cons c rest => by_cases hc : c = '=' <;> simp [skipOne, hc]

theorem skipOne_append_feeds (h : Feeds feeds) {c : Char} (hc : Check.Line.isFeed c = false)
    (s : List Char) : skipOne c (s ++ feeds) = skipOne c s ++ feeds := by
  cases s with
  | cons d s => by_cases hd : d = c <;> simp [skipOne, hd]
  | nil =>
    cases feeds with
    | nil => rfl
    | cons d rest =>
      have hd : d ≠ c := fun hd => by simp [← hd, h d List.mem_cons_self] at hc
      simp [skipOne, hd]

end Text

namespace Disabler

open Text

theorem namedRules_eq_skipOne (s : List Char) :
    namedRules s =
      let names := (skipOne '=' s).takeWhile isRuleNameChar
      if names.isEmpty then ["all"] else (splitAt ',' names).map String.ofList := by
  cases s with
  | nil => rfl
  | cons c rest =>
    by_cases hc : c = '='
    · subst hc
      rfl
    · simp [namedRules, skipOne, hc]

theorem commandAt_eq_skipOne (s : List Char) :
    commandAt s = (after? "robocop:".toList s).bind fun rest =>
      match after? "disable".toList (skipOne ' ' rest), after? "enable".toList (skipOne ' ' rest) with
      | some names, _ => some ⟨.disable, namedRules names⟩
      | none, some names => some ⟨.enable, namedRules names⟩
      | none, none => none := by
  simp only [skipOne_blank]
  rfl

private theorem namedRules_append_feeds (h : Feeds feeds) (s : List Char) :
    namedRules (s ++ feeds) = namedRules s := by
  rw [namedRules_eq_skipOne, namedRules_eq_skipOne, skipOne_append_feeds h (by decide),
    takeWhile_append_feeds h (by decide) (by decide)]

theorem commandAt_append_feeds (h : Feeds feeds) (s : List Char) :
    commandAt (s ++ feeds) = commandAt s := by
  rw [commandAt_eq_skipOne, commandAt_eq_skipOne, after?_append_feeds h (by decide)]
  cases after? "robocop:".toList s with
  | none => rfl
  | some rest =>
    simp only [Option.map_some, Option.bind_some, skipOne_append_feeds h (c := ' ') (by decide)]
    rw [after?_append_feeds h (by decide), after?_append_feeds h (by decide)]
    cases after? "disable".toList (skipOne ' ' rest) <;>
      cases after? "enable".toList (skipOne ' ' rest) <;> simp [namedRules_append_feeds h]

theorem command?_append_feeds (h : Feeds feeds) (s : List Char) :
    command? (s ++ feeds) = command? s := by
  induction s with
  | cons c s ih =>
    rw [List.cons_append, command?, command?, ih, ← List.cons_append, commandAt_append_feeds h]
  | nil =>
    induction feeds with
    | nil => rfl
    | cons c rest ih =>
      have hc : commandAt (c :: rest) = commandAt [] := commandAt_append_feeds h []
      have hrest : command? rest = none := ih h.tail
      show (commandAt (c :: rest)).or (command? rest) = none
      rw [hc, hrest]
      rfl

theorem readLine_append_feeds (h : Feeds feeds) (t : Table) (number : Nat) (s : List Char) :
    readLine t number (s ++ feeds) = readLine t number s := by
  rw [readLine, readLine, has_append_feeds h (by decide) (by decide)]
  rcases hs : cutAt '#' s with ⟨before, none | comment⟩
  · have hsign : '#' ∉ s := cutAt_none_iff.mp (by rw [hs])
    have hfeeds : '#' ∉ feeds := fun hf => absurd (h '#' hf) (by decide)
    have hcut : (cutAt '#' (s ++ feeds)).2 = none := cutAt_none_iff.mpr (by simp [hsign, hfeeds])
    rcases hsf : cutAt '#' (s ++ feeds) with ⟨before', after⟩
    rw [hsf] at hcut
    obtain rfl : after = none := hcut
    rfl
  · obtain ⟨rfl, hbefore⟩ := cutAt_eq_some_iff.mp hs
    have hcut : cutAt '#' ((before ++ '#' :: comment) ++ feeds) = (before, some (comment ++ feeds)) :=
      cutAt_eq_some_iff.mpr ⟨by simp, hbefore⟩
    rw [hcut]
    simp only [command?_append_feeds h]

end Disabler

namespace Check.Line

open Text

theorem afterSigns?_append_feeds (h : Feeds feeds) (s : List Char) :
    afterSigns? (s ++ feeds) = (afterSigns? s).map (· ++ feeds) := by
  fun_induction afterSigns? s with
  | case1 rest ih =>
    rw [List.cons_append, List.cons_append, afterSigns?, ih]
    cases afterSigns? rest <;> rfl
  | case2 s hs =>
    rw [afterSigns?]
    · rfl
    · intro rest hrest
      have hpre : ['#', ' '].isPrefixOf (s ++ feeds) = ['#', ' '].isPrefixOf s :=
        isPrefixOf_append_feeds h (by decide) s
      have hfull : ['#', ' '].isPrefixOf (s ++ feeds) = true := by rw [hrest]; rfl
      obtain ⟨more, hmore⟩ := List.isPrefixOf_iff_prefix.mp (hpre.symm.trans hfull)
      exact hs more hmore.symm

theorem afterDisabler?_eq (s : List Char) :
    afterDisabler? s = (afterSigns? s).bind fun body =>
      (after? "noqa".toList body).or
        ((after? "robocop:".toList body).bind fun rest =>
          ((after? "disable".toList (skipOne ' ' rest)).or
            (after? "enable".toList (skipOne ' ' rest))).map fun names =>
              (skipOne '=' names).dropWhile Disabler.isRuleNameChar) := by
  rw [afterDisabler?]
  congr 1
  funext body
  cases after? "noqa".toList body with
  | some rest => rfl
  | none =>
    simp only [Option.none_or]
    congr 1
    funext rest
    simp only [skipOne_blank, skipOne_sign, Option.map_eq_bind]
    rfl

theorem afterDisabler?_append_feeds (h : Feeds feeds) (s : List Char) :
    afterDisabler? (s ++ feeds) = (afterDisabler? s).map (· ++ feeds) := by
  rw [afterDisabler?_eq, afterDisabler?_eq, afterSigns?_append_feeds h]
  cases afterSigns? s with
  | none => rfl
  | some body =>
    simp only [Option.map_some, Option.bind_some]
    rw [after?_append_feeds h (by decide), after?_append_feeds h (by decide)]
    cases after? "noqa".toList body with
    | some rest => rfl
    | none =>
      cases after? "robocop:".toList body with
      | none => rfl
      | some rest =>
        simp only [Option.map_none, Option.none_or, Option.map_some, Option.bind_some]
        rw [skipOne_append_feeds h (by decide), after?_append_feeds h (by decide),
          after?_append_feeds h (by decide), ← Option.map_or]
        simp only [Option.map_map, Function.comp_def, skipOne_append_feeds h (c := '=') (by decide),
          dropWhile_append_feeds h (p := Disabler.isRuleNameChar) (by decide) (by decide)]

private theorem dropDisablers_feeds (h : Feeds feeds) : dropDisablers 0 feeds = feeds := by
  induction feeds with
  | nil => rfl
  | cons c rest ih =>
    have hc : afterDisabler? (c :: rest) = none := afterDisabler?_append_feeds h []
    rw [dropDisablers, hc, ih h.tail]

theorem dropDisablers_append_feeds (h : Feeds feeds) {skip : Nat} {s : List Char}
    (hskip : skip ≤ s.length) :
    dropDisablers skip (s ++ feeds) = dropDisablers skip s ++ feeds := by
  induction s generalizing skip with
  | nil =>
    obtain rfl : skip = 0 := Nat.le_zero.mp hskip
    exact dropDisablers_feeds h
  | cons c s ih =>
    cases skip with
    | succ skip => exact ih (Nat.le_of_succ_le_succ hskip)
    | zero =>
      rw [List.cons_append, dropDisablers, dropDisablers, ← List.cons_append,
        afterDisabler?_append_feeds h]
      cases afterDisabler? (c :: s) with
      | none => simp only [Option.map_none, ih (Nat.zero_le _), List.cons_append]
      | some tail =>
        have hlen : (s ++ feeds).length - (tail ++ feeds).length = s.length - tail.length := by
          rw [List.length_append, List.length_append]
          omega
        simp only [Option.map_some, hlen]
        exact ih (Nat.sub_le ..)

theorem measure_append_feeds (h : Feeds feeds) (s : List Char) : measure (s ++ feeds) = measure s := by
  rw [measure, dropDisablers_append_feeds h (Nat.zero_le _), trimRight,
    dropEndWhile_append_feeds h (by decide) (by decide), ← trimRight, measure]

theorem trailing_append_feeds (h : Feeds feeds) (s : List Char) (number : Nat) :
    trailing (s ++ feeds) number = trailing s number := by
  rw [trailing, trailing, dropEndWhile_append_feeds h (by decide) (by decide)]

end Check.Line

theorem Check.IgnoredData.judge_append_feeds (h : Text.Feeds feeds) (marked : Bool) (number : Nat)
    (s : List Char) : judge marked number (s ++ feeds) = judge marked number s := by
  rw [judge, judge, Text.isPrefixOf_append_feeds h (by decide),
    Text.isPrefixOf_append_feeds h (by decide), Text.has_append_feeds h (by decide) (by decide)]

end SuiteLint
