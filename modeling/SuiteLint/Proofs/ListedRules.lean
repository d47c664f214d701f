import SuiteLint.Proofs.BlockReach

/-!
# Comments with a list of rules

A list of rules is read if an equals sign ties it to `disable`. A command ends before a colon, without a list,
and so it stands for all rules.
-/

namespace SuiteLint

theorem Text.splitAt_join {sep : Char} {pieces : List (List Char)} (hne : pieces ≠ [])
    (h : ∀ piece ∈ pieces, sep ∉ piece) : splitAt sep (join [sep] pieces) = pieces := by
  induction pieces with
  | nil => exact absurd rfl hne
  | cons piece pieces ih =>
    rw [List.forall_mem_cons] at h
    cases pieces with
    | nil => exact splitAt_of_not_mem h.1
    | cons next more =>
      have hjoin : join [sep] (piece :: next :: more) = piece ++ sep :: join [sep] (next :: more) := by
        rw [join, List.append_assoc, List.singleton_append]
        exact List.cons_ne_nil _ _
      rw [hjoin, splitAt_append_cons h.1, ih (List.cons_ne_nil _ _) h.2]

theorem Text.mem_join {sep : List Char} {pieces : List (List Char)} {c : Char}
    (h : c ∈ join sep pieces) : c ∈ sep ∨ ∃ piece ∈ pieces, c ∈ piece := by
  induction pieces with
  | nil => cases h
  | cons piece pieces ih =>
    cases pieces with
    | nil => exact Or.inr ⟨piece, List.mem_singleton_self _, h⟩
    | cons next more =>
      rw [join, List.mem_append, List.mem_append] at h
      · rcases h with (hpiece | hsep) | hmore
        · exact Or.inr ⟨piece, List.mem_cons_self, hpiece⟩
        · exact Or.inl hsep
        · obtain hsep | ⟨other, hother, hc⟩ := ih hmore
          · exact Or.inl hsep
          · exact Or.inr ⟨other, List.mem_cons_of_mem _ hother, hc⟩
      · exact List.cons_ne_nil _ _

namespace Disabler

def listed (names : List String) : List Char := Text.join [','] (names.map String.toList)

/-- A list that names some rules, and does not take in all of them. -/
structure IsRuleList (names : List String) : Prop where
  nonempty : names ≠ []
  plain : ∀ name ∈ names, IsPlainName name
  not_all : "all" ∉ names

namespace IsRuleList

variable {names : List String}

theorem isRuleNameChar_listed (h : IsRuleList names) :
    ∀ ch ∈ listed names, isRuleNameChar ch = true := by
  intro ch hch
  obtain hsep | ⟨piece, hpiece, hmem⟩ := Text.mem_join hch
  · rw [List.mem_singleton.mp hsep]
    decide
  · obtain ⟨name, hname, rfl⟩ := List.mem_map.mp hpiece
    exact ((h.plain name hname).chars ch hmem).1

theorem listed_ne_nil (h : IsRuleList names) : listed names ≠ [] := by
  obtain ⟨name, names, rfl⟩ := List.exists_cons_of_ne_nil h.nonempty
  have hname := (h.plain name List.mem_cons_self).nonempty
  cases names with
  | nil => exact hname
  | cons next more =>
    rw [listed, List.map_cons, List.map_cons, Text.join]
    · simp [hname]
    · exact List.cons_ne_nil _ _

theorem rulesOf_listed (h : IsRuleList names) : rulesOf (listed names) = names := by
  have hcomma : ∀ piece ∈ names.map String.toList, ',' ∉ piece := by
    intro piece hpiece hmem
    obtain ⟨name, hname, rfl⟩ := List.mem_map.mp hpiece
    exact ((h.plain name hname).chars ',' hmem).2 rfl
  have hnames : names.map String.toList ≠ [] := fun hnil => h.nonempty (List.map_eq_nil_iff.mp hnil)
  rw [rulesOf, List.isEmpty_eq_false_iff.mpr h.listed_ne_nil, if_neg Bool.false_ne_true, listed,
    Text.splitAt_join hnames hcomma, List.map_map]
  simp [Function.comp_def]

end IsRuleList

def attached (sign : Char) (names : List String) : List String :=
  if sign = '=' then names else ["all"]

/-- A command that a sign and a list follow is read with the list, or without any. -/
theorem spells_attached {sign : Char} {names : List String} (hnames : IsRuleList names)
    (hsign : isRuleNameChar sign = false) {rest : List Char}
    (hrest : ∀ ch ∈ rest.head?, isRuleNameChar ch = false) :
    Spells ("robocop: disable".toList ++ sign :: (listed names ++ rest))
      ⟨.disable, attached sign names⟩ := by
  have hword : "robocop: disable".toList = "robocop:".toList ++ [' '] ++ Action.disable.word := rfl
  rw [hword]
  by_cases heq : sign = '='
  · subst heq
    refine ⟨[' '], ['='], listed names, rest, ?_, Or.inr rfl, Or.inl rfl,
      hnames.isRuleNameChar_listed, hrest, hnames.rulesOf_listed.symm⟩
    simp only [List.append_assoc, List.cons_append, List.nil_append]
  · -- the names are empty and the sign starts what follows them
    refine ⟨[' '], [], [], sign :: (listed names ++ rest), ?_, Or.inr rfl,
      Or.inr ⟨rfl, by simpa using heq⟩, by simp, ?_, ?_⟩
    · simp only [List.append_nil]
    · intro ch hch
      rw [← Option.some.inj hch]
      exact hsign
    · exact if_neg heq

private theorem not_spells_of_ne {ch : Char} (h : ch ≠ 'r') (text : List Char) (c : Command) :
    ¬ Spells (ch :: text) c := by
  rintro ⟨gap, sign, names, rest, htext, -⟩
  exact h (List.cons.inj htext).1

/-- A line has a comment behind a statement that switches off and has a list behind the sign. No
command stands before it in the comment, and the list ends where the names do. -/
def EndsInList (line : List Char) (sign : Char) (names : List String) : Prop :=
  ∃ before lead rest,
    line = before ++ '#' :: (lead ++ ("robocop: disable".toList ++ sign :: (listed names ++ rest))) ∧
    '#' ∉ before ∧ (∃ ch ∈ before, Text.isBlank ch = false) ∧
    (∀ ch ∈ rest.head?, isRuleNameChar ch = false) ∧
    ∀ first later, lead = first ++ later → later ≠ [] → ∀ c,
      ¬ Spells (later ++ ("robocop: disable".toList ++ sign :: (listed names ++ rest))) c

/-- The comment on one line of a file lists rules behind a statement, and no other comment of the file
switches off any rule. -/
structure OnlyLists (lines : List (List Char)) (number : Int) (sign : Char)
    (names : List String) : Prop where
  rules : IsRuleList names
  here : HoldsAt lines number fun line =>
    EndsInList line sign names ∧ ¬ "# noqa".toList <:+: line
  elsewhere : ∀ other, other ≠ number → ∀ rule,
    ¬ HoldsAt lines other fun line => IsInline line rule ∨ IsBlock .disable line rule

section

variable {line : List Char} {sign : Char} {names : List String}

theorem EndsInList.bears (h : EndsInList line sign names) (hnames : IsRuleList names)
    (hsign : isRuleNameChar sign = false) :
    ∃ before, Bears line before ⟨.disable, attached sign names⟩ ∧
      ∃ ch ∈ before, Text.isBlank ch = false := by
  obtain ⟨before, lead, rest, hline, hmark, hfilled, hrest, hfirst⟩ := h
  refine ⟨before, ⟨_, hline, hmark, lead, _, rfl, spells_attached hnames hsign hrest, ?_⟩, hfilled⟩
  intro before' rest' hcut hlength
  -- a cut within the lead leaves some of it in front of the command
  have hlead : before' <+: lead :=
    List.prefix_of_prefix_length_le ⟨rest', hcut.symm⟩ (List.prefix_append _ _) (Nat.le_of_lt hlength)
  obtain ⟨later, rfl⟩ := hlead
  have hlater : later ≠ [] := by
    rintro rfl
    simp at hlength
  rw [List.append_assoc] at hcut
  rw [← List.append_cancel_left hcut]
  exact hfirst before' later rfl hlater

/-- Such a line switches off the rules that its list stands for, and opens no block. -/
theorem EndsInList.switches (h : EndsInList line sign names) (hnames : IsRuleList names)
    (hsign : isRuleNameChar sign = false) (hnoqa : ¬ "# noqa".toList <:+: line) (rule : String) :
    (IsInline line rule ↔ rule ∈ attached sign names) ∧ ¬ IsBlock .disable line rule := by
  obtain ⟨before, hbears, hfilled⟩ := h.bears hnames hsign
  have hbearing := bearing?_eq_some_iff.mpr hbears
  have hblank : Text.isBlankText before = false := by
    rw [Bool.eq_false_iff, Ne, Text.isBlankText_iff]
    obtain ⟨ch, hch, hfill⟩ := hfilled
    intro hall
    rw [hall ch hch] at hfill
    exact Bool.noConfusion hfill
  rw [isInline_iff, isBlock_iff, hbearing, Text.has_iff]
  refine ⟨⟨?_, fun hrule => Or.inr ⟨_, rfl, hblank, rfl, hrule⟩⟩, ?_⟩
  · rintro (⟨-, hmark⟩ | ⟨p, hp, -, -, hrule⟩)
    · exact absurd hmark hnoqa
    · obtain rfl := Option.some.inj hp
      exact hrule
  · rintro ⟨p, hp, halone, -⟩
    obtain rfl := Option.some.inj hp
    rw [hblank] at halone
    exact Bool.false_ne_true halone

end

/-- In such a file a rule is off on the line of the comment only, and only if the list stands for it. -/
theorem OnlyLists.switchedOff_iff {lines : List (List Char)} {number : Int} {sign : Char}
    {names : List String} (h : OnlyLists lines number sign names)
    (hsign : isRuleNameChar sign = false) (place : Int) (rule : String) :
    SwitchedOff lines place rule ↔ place = number ∧ rule ∈ attached sign names := by
  obtain ⟨k, line, hk, hnumber, hlist, hnoqa⟩ := h.here
  have hswitches := hlist.switches h.rules hsign hnoqa rule
  have hthis {p : List Char → Prop} (hat : HoldsAt lines number p) : p line := by
    obtain ⟨k', line', hk', hnumber', hp⟩ := hat
    obtain rfl : k' = k := by omega
    obtain rfl := Option.some.inj (hk.symm.trans hk')
    exact hp
  have hother {other : Int} (hne : other ≠ number) {p : List Char → Prop}
      (hp : ∀ line, p line → IsInline line rule ∨ IsBlock .disable line rule) :
      ¬ HoldsAt lines other p := by
    rintro ⟨k', line', hk', hplace, hline⟩
    exact h.elsewhere other hne rule ⟨k', line', hk', hplace, hp line' hline⟩
  constructor
  · rintro (hinline | ⟨-, start, -, hstart, -⟩)
    · by_cases hplace : place = number
      · subst hplace
        exact ⟨rfl, hswitches.1.mp (hthis hinline)⟩
      · exact absurd hinline (hother hplace fun _ => Or.inl)
    · by_cases hplace : start = number
      · subst hplace
        exact absurd (hthis hstart) hswitches.2
      · exact absurd hstart (hother hplace fun _ => Or.inr)
  · rintro ⟨rfl, hrule⟩
    exact Or.inl ⟨k, line, hk, hnumber, hswitches.1.mpr hrule⟩

def lineWithList (statement : List Char) (sign : Char) (names : List String) : List Char :=
  statement ++ '#' :: ([' '] ++ ("robocop: disable".toList ++ sign :: (listed names ++ [])))

/-- Between lines that switch off nothing it is the only one that does. -/
theorem onlyLists_of_split {before after : List (List Char)} {statement : List Char} {sign : Char}
    {names : List String} (hnames : IsRuleList names) (hstatement : statement.contains '#' = false)
    (hfilled : ∃ ch ∈ statement, Text.isBlank ch = false)
    (hnoqa : Text.has "# noqa".toList (lineWithList statement sign names) = false)
    (hplain : ∀ line ∈ before ++ after, bearing? line = none ∧ Text.has "# noqa".toList line = false) :
    OnlyLists (before ++ lineWithList statement sign names :: after) (before.length + 1) sign names where
  rules := hnames
  here := by
    have hline : (before ++ lineWithList statement sign names :: after)[before.length]? =
        some (lineWithList statement sign names) := by
      rw [List.getElem?_append_right (Nat.le_refl _), Nat.sub_self, List.getElem?_cons_zero]
    refine ⟨before.length, _, hline, rfl,
      ⟨statement, [' '], [], rfl, ?_, hfilled, by simp, ?_⟩, ?_⟩
    · simpa using hstatement
    · intro first later hlead hlater c
      obtain ⟨ch, later, rfl⟩ := List.exists_cons_of_ne_nil hlater
      have hblank : ch ∈ [' '] := hlead ▸ List.mem_append_right _ List.mem_cons_self
      rw [List.cons_append]
      exact not_spells_of_ne (by rw [List.mem_singleton.mp hblank]; decide) _ c
    · rw [← Text.has_iff, hnoqa]
      exact Bool.false_ne_true
  elsewhere := by
    rintro other hother rule ⟨k, line, hk, rfl, hline⟩
    have hmem : line ∈ before ++ after := by
      rcases Nat.lt_trichotomy k before.length with hlt | rfl | hgt
      · rw [List.getElem?_append_left hlt] at hk
        exact List.mem_append_left _ (List.mem_of_getElem? hk)
      · omega
      · rw [List.getElem?_append_right (by omega), List.getElem?_cons,
          if_neg (by omega)] at hk
        exact List.mem_append_right _ (List.mem_of_getElem? hk)
    obtain ⟨hbearing, hmark⟩ := hplain line hmem
    rw [isInline_iff, isBlock_iff, hbearing, hmark] at hline
    simp at hline

theorem isRuleList_of_all {names : List String} (hne : names ≠ []) (hall : "all" ∉ names)
    (h : ∀ name ∈ names, name.toList ≠ [] ∧
      (name.toList.all fun ch => isRuleNameChar ch && ch != ',') = true) : IsRuleList names := by
  refine ⟨hne, fun name hname => ⟨(h name hname).1, ?_⟩, hall⟩
  intro ch hch
  simpa using List.all_eq_true.mp (h name hname).2 ch hch

def listedInTest (sign : Char) : List (List Char) :=
  ["*** Test Cases ***".toList, "Test".toList] ++
    lineWithList "    Log    1  ".toList sign ["rule1", "rule2"] :: []

theorem onlyLists_listedInTest {sign : Char} (hsign : sign = ':' ∨ sign = '=') :
    OnlyLists (listedInTest sign) 3 sign ["rule1", "rule2"] := by
  have hnoqa : Text.has "# noqa".toList
      (lineWithList "    Log    1  ".toList sign ["rule1", "rule2"]) = false := by
    rcases hsign with rfl | rfl <;> decide
  exact onlyLists_of_split (isRuleList_of_all (by decide) (by decide) (by decide))
    (by decide) ⟨'L', by decide, by decide⟩ hnoqa (by decide)

end Disabler

namespace Disablers

open Disabler

/-- In a file whose only disabler lists rules behind a statement, an issue is covered exactly if the comment
stands on one of its lines and a colon precedes the list, or the list has its id or name. -/
theorem covers_ofLines_of_onlyLists {lines : List (List Char)} {number : Int} {sign : Char}
    {names : List String} (h : OnlyLists lines number sign names) (hsign : sign = ':' ∨ sign = '=')
    (places : List Int) (id name : String) :
    (ofLines lines).covers places id name = true ↔
      number ∈ places ∧ (sign = ':' ∨ id ∈ names ∨ name ∈ names) := by
  have hcut : isRuleNameChar sign = false := by rcases hsign with rfl | rfl <;> decide
  rw [covers_ofLines_eq]
  simp only [List.any_eq_true, coversLine_ofLines_iff, h.switchedOff_iff hcut]
  have hrule : (∃ rule ∈ ["all", id, name], rule ∈ attached sign names) ↔
      sign = ':' ∨ id ∈ names ∨ name ∈ names := by
    rcases hsign with rfl | rfl
    · simp [attached]
    · simp [attached, h.rules.not_all]
  rw [← hrule]
  constructor
  · rintro ⟨place, hplace, rule, hmem, rfl, hattached⟩
    exact ⟨hplace, rule, hmem, hattached⟩
  · rintro ⟨hplace, rule, hmem, hattached⟩
    exact ⟨number, hplace, rule, hmem, rfl, hattached⟩

/-- In a file whose only disabler is a `# robocop: disable` with a list of rules behind a statement, an issue
is covered exactly if the comment stands on one of its lines and a colon precedes the list, or the list has
its id or name. So the issues of rules that are not listed all remain exactly if it is an equals sign. -/
theorem listed_rules_alone_covered_iff {lines : List (List Char)} {number : Int} {sign : Char}
    {names : List String} (h : OnlyLists lines number sign names) (hsign : sign = ':' ∨ sign = '=') :
    (∀ (line : Int) (extraLines : List Int) (id name : String),
      (ofLines lines).covers (line :: extraLines) id name = true ↔
        number ∈ line :: extraLines ∧ (sign = ':' ∨ id ∈ names ∨ name ∈ names)) ∧
    ((∀ (extraLines : List Int) (id name : String), id ∉ names → name ∉ names →
      (ofLines lines).covers (number :: extraLines) id name = false) ↔ sign = '=') := by
  have hcovers (line : Int) (extraLines : List Int) :=
    covers_ofLines_of_onlyLists h hsign (line :: extraLines)
  refine ⟨hcovers, ?_⟩
  constructor
  · intro hleft
    refine hsign.resolve_left fun hcolon => ?_
    have hcovered := (hcovers number [] "all" "all").mpr ⟨List.mem_cons_self, Or.inl hcolon⟩
    rw [hleft [] "all" "all" h.rules.not_all h.rules.not_all] at hcovered
    exact Bool.false_ne_true hcovered
  · rintro rfl extraLines id name hid hname
    rw [Bool.eq_false_iff, Ne, hcovers]
    rintro ⟨-, hcolon | hlisted | hlisted⟩
    · exact absurd hcolon (by decide)
    · exact hid hlisted
    · exact hname hlisted

/-- Behind an equals sign the list of the test case leaves the issues of other rules on its line. -/
theorem listed_rules_alone_covered_iff_equals :
    OnlyLists (listedInTest '=') 3 '=' ["rule1", "rule2"] ∧
      ∀ (extraLines : List Int) (id name : String),
        id ∉ ["rule1", "rule2"] → name ∉ ["rule1", "rule2"] →
          (ofLines (listedInTest '=')).covers (3 :: extraLines) id name = false := by
  have honly := onlyLists_listedInTest (Or.inr rfl)
  exact ⟨honly, (listed_rules_alone_covered_iff honly (Or.inr rfl)).2.mpr rfl⟩

/-- Behind a colon it leaves none. -/
theorem unlisted_rule_covered_behind_colon :
    OnlyLists (listedInTest ':') 3 ':' ["rule1", "rule2"] ∧
      "0501" ∉ ["rule1", "rule2"] ∧ "too-long-keyword" ∉ ["rule1", "rule2"] ∧
      (ofLines (listedInTest ':')).covers [3] "0501" "too-long-keyword" = true := by
  refine ⟨onlyLists_listedInTest (Or.inl rfl), by decide, by decide, ?_⟩
  decide +kernel

end Disablers

end SuiteLint
