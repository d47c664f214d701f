import SuiteLint.Proofs.FindingIssues
import SuiteLint.Proofs.SettingLocality
import SuiteLint.Proofs.WholeFile

/-!
# How far a block reaches

A block that `# robocop: disable` on the first line opens covers all that the checks of raw lines report, but
for empty lines at the end of a file (1010): these are reported on the line after the last one, which no block
reaches.
-/

namespace SuiteLint.Disabler

def opening (name : String) : List Char := "# robocop: disable=".toList ++ name.toList

/-- A name that can stand alone in the list of a comment. -/
structure IsPlainName (name : String) : Prop where
  nonempty : name.toList ≠ []
  chars : ∀ ch ∈ name.toList, isRuleNameChar ch = true ∧ ch ≠ ','

namespace IsPlainName

variable {name : String}

private theorem rulesOf_eq (h : IsPlainName name) : rulesOf name.toList = [name] := by
  have hcomma : ',' ∉ name.toList := fun hmem => (h.chars ',' hmem).2 rfl
  have hempty : name.toList.isEmpty = false := List.isEmpty_eq_false_iff.mpr h.nonempty
  rw [rulesOf, hempty, if_neg Bool.false_ne_true, Text.splitAt_of_not_mem hcomma, List.map_singleton,
    String.ofList_toList]

theorem bearing?_opening (h : IsPlainName name) :
    bearing? (opening name) = some ([], ⟨.disable, [name]⟩) := by
  have hspells : Spells ("robocop: disable=".toList ++ name.toList) ⟨.disable, [name]⟩ :=
    ⟨[' '], ['='], name.toList, [], by rw [List.append_nil]; rfl, Or.inr rfl, Or.inl rfl,
      fun ch hch => (h.chars ch hch).1, by simp, h.rulesOf_eq.symm⟩
  have hfirst : command? ("robocop: disable=".toList ++ name.toList) = some ⟨.disable, [name]⟩ := by
    rw [show "robocop: disable=".toList = 'r' :: "obocop: disable=".toList from rfl, List.cons_append,
      command?, ← List.cons_append]
    rw [show 'r' :: "obocop: disable=".toList = "robocop: disable=".toList from rfl,
      commandAt_eq_some_iff.mpr hspells, Option.some_or]
  rw [bearing?_eq_some_iff]
  refine ⟨' ' :: ("robocop: disable=".toList ++ name.toList), rfl, List.not_mem_nil, ?_⟩
  rw [← command?_eq_some_iff, command?, hfirst]
  rfl

theorem isBlock_opening (h : IsPlainName name) (action : Action) (rule : String) :
    IsBlock action (opening name) rule ↔ action = .disable ∧ rule = name := by
  rw [isBlock_iff, h.bearing?_opening]
  constructor
  · rintro ⟨p, hp, -, haction, hrule⟩
    obtain rfl := Option.some.inj hp
    exact ⟨haction.symm, List.mem_singleton.mp hrule⟩
  · rintro ⟨rfl, rfl⟩
    exact ⟨_, rfl, rfl, rfl, List.mem_singleton_self _⟩

theorem not_isInline_opening (h : IsPlainName name) (rule : String) :
    ¬ IsInline (opening name) rule := by
  have hsign : '#' ∉ " robocop: disable=".toList ++ name.toList := by
    rw [List.mem_append, not_or]
    exact ⟨by decide, fun hmem => absurd (h.chars '#' hmem).1 (by decide)⟩
  rw [isInline_iff, h.bearing?_opening]
  rintro (⟨-, hnoqa⟩ | ⟨p, hp, hblank, -⟩)
  · rw [Text.has_iff, show opening name = '#' :: (" robocop: disable=".toList ++ name.toList) from rfl,
      List.infix_cons_iff] at hnoqa
    rcases hnoqa with hfront | hlater
    · obtain ⟨rest, hrest⟩ := hfront
      have hthird : some 'n' = some 'r' := congrArg (fun s => s[2]?) hrest
      exact absurd hthird (by decide)
    · exact hsign (hlater.subset (by decide))
  · obtain rfl := Option.some.inj hp
    exact Bool.noConfusion hblank

end IsPlainName

variable {lines : List (List Char)} {name : String}

theorem holdsAt_one_iff {first : List Char} (hfirst : lines.head? = some first)
    {p : List Char → Prop} : HoldsAt lines 1 p ↔ p first := by
  obtain ⟨rest, rfl⟩ := List.head?_eq_some_iff.mp hfirst
  constructor
  · rintro ⟨k, line, hk, hone, hp⟩
    obtain rfl : k = 0 := by omega
    rw [List.getElem?_cons_zero] at hk
    exact Option.some.inj hk ▸ hp
  · intro hp
    exact ⟨0, first, rfl, rfl, hp⟩

theorem switchedOff_of_opening (hname : IsPlainName name) (hfirst : lines.head? = some (opening name))
    (hlater : ∀ line ∈ lines.tail, ¬ Ends line name) {number : Int} (hone : 1 ≤ number)
    (hlast : number ≤ lines.length) : SwitchedOff lines number name := by
  refine Or.inr ⟨hlast, 1, hone, ?_, ?_⟩
  · rw [holdsAt_one_iff hfirst, hname.isBlock_opening]
    exact ⟨rfl, rfl⟩
  · rintro stop hstop - ⟨k, line, hk, rfl, hends⟩
    apply hlater line _ hends
    have hplace : lines.tail[k - 1]? = some line := by
      rw [List.getElem?_tail, show k - 1 + 1 = k by omega]
      exact hk
    exact List.mem_of_getElem? hplace

private theorem not_switchedOff_past_end (rule : String) : ¬ SwitchedOff lines (lines.length + 1) rule := by
  rintro (hat | ⟨hle, -⟩)
  · have := hat.bounds.2
    omega
  · omega

end SuiteLint.Disabler

namespace SuiteLint.Disablers
open Disabler

variable {lines : List (List Char)} {name : String}

theorem not_wholeFile_of_opening (hname : IsPlainName name) (hall : name ≠ "all")
    (hfirst : lines.head? = some (opening name)) : ¬ (ofLines lines).wholeFile = true := by
  intro hwhole
  have hlength : (1 : Int) ≤ lines.length := by
    obtain ⟨rest, rfl⟩ := List.head?_eq_some_iff.mp hfirst
    simp only [List.length_cons]
    omega
  have hcovers := coversLine_of_wholeFile hwhole (Int.le_refl 1) hlength
  rw [coversLine_ofLines_iff] at hcovers
  rcases hcovers with hat | ⟨-, start, hle, hstart, -⟩
  · rw [holdsAt_one_iff hfirst] at hat
    exact hname.not_isInline_opening "all" hat
  · obtain rfl : start = 1 := by
      have := hstart.bounds.1
      omega
    rw [holdsAt_one_iff hfirst, hname.isBlock_opening] at hstart
    exact hall hstart.2.symm

theorem covers_of_switchedOff {line : Int} {key : RuleKey} (hcalled : key.IsCalled name)
    (h : SwitchedOff lines line name) : (ofLines lines).covers [line] key.id key.name = true := by
  rw [covers_ofLines_eq, List.any_eq_true]
  refine ⟨line, List.mem_singleton_self line, ?_⟩
  rw [List.any_eq_true]
  refine ⟨name, ?_, (coversLine_ofLines_iff lines line name).mpr h⟩
  rcases hcalled with rfl | rfl
  · simp
  · simp

private theorem not_covers_past_end (lines : List (List Char)) (id name : String) :
    (ofLines lines).covers [(lines.length : Int) + 1] id name = false := by
  rw [covers_ofLines_eq, List.any_eq_false]
  intro line hline hany
  obtain rfl := List.mem_singleton.mp hline
  obtain ⟨rule, -, hcovers⟩ := List.any_eq_true.mp hany
  exact not_switchedOff_past_end rule ((coversLine_ofLines_iff lines _ rule).mp hcovers)

end SuiteLint.Disablers

namespace SuiteLint

/-! ## Where the checks of raw lines report -/

def RuleKey.isOfLines : RuleKey → Bool
  | lineTooLong | ignoredData | trailingWhitespace | missingTrailingBlankLine
  | tooManyTrailingBlankLines => true
  | _ => false

/-- A finding lies on one of the lines. -/
structure Finding.LiesOn (f : Finding) (lines : List (List Char)) : Prop where
  alone : f.extraLines = []
  first : 1 ≤ f.line
  last : f.line ≤ lines.length

def Text.EndsBare (lines : List (List Char)) : Prop :=
  lines.getLast? = some ['\n'] ∨ lines.getLast? = some ['\r'] ∨ lines.getLast? = some ['\r', '\n']

instance (lines : List (List Char)) : Decidable (Text.EndsBare lines) :=
  inferInstanceAs (Decidable (_ ∨ _ ∨ _))

namespace Check

theorem Line.liesOn_found {lines : List (List Char)} {line : List Char} {number : Nat}
    (h : (line, number) ∈ Line.numbered lines) (rule : RuleKey) (args : List Datum) (col : Int) :
    (found rule args number col).LiesOn lines := by
  obtain ⟨hfirst, hlast, -⟩ := List.mem_zipIdx h
  exact ⟨rfl, by simp only [found]; omega, by simp only [found]; omega⟩

theorem Line.liesOn_checkLength {vs : Values} {lines : List (List Char)} {f : Finding}
    (h : f ∈ Line.checkLength vs lines) : f.LiesOn lines := by
  obtain ⟨⟨line, number⟩, hmem, hf⟩ := List.mem_flatMap.mp h
  simp only at hf
  split at hf
  · rw [List.mem_singleton.mp hf]
    exact liesOn_found hmem ..
  · cases hf

theorem Line.trailing_spec {lines : List (List Char)} {line : List Char} {number : Nat} {f : Finding}
    (hmem : (line, number) ∈ Line.numbered lines) (h : f ∈ Line.trailing line number) :
    f.rule = .trailingWhitespace ∧ f.LiesOn lines := by
  simp only [Line.trailing] at h
  split at h
  · split at h
    · rw [List.mem_singleton.mp h]
      exact ⟨rfl, liesOn_found hmem ..⟩
    · cases h
  · cases h

theorem IgnoredData.liesOn_checkFrom {before lines : List (List Char)} {marked : Bool} {f : Finding}
    (h : f ∈ IgnoredData.checkFrom marked (before.length + 1) lines) : f.LiesOn (before ++ lines) := by
  induction lines generalizing before with
  | nil => cases h
  | cons line lines ih =>
    rw [IgnoredData.checkFrom] at h
    split at h
    · have hmore := @ih (before ++ [line]) (by rw [List.length_append]; exact h)
      rwa [List.append_assoc] at hmore
    · cases h
    · rw [List.mem_singleton.mp h]
      refine ⟨rfl, by simp only [found]; omega, ?_⟩
      simp only [found, List.length_append, List.length_cons]
      omega

theorem Line.atEnd_of_endsBare {lines : List (List Char)} (h : Text.EndsBare lines) :
    Line.atEnd lines = [found .tooManyTrailingBlankLines [] (lines.length + 1) 1] := by
  unfold Text.EndsBare at h
  simp only [← List.head?_reverse] at h
  unfold Line.atEnd
  rcases h with h | h | h <;> obtain ⟨before, hlines⟩ := List.head?_eq_some_iff.mp h <;>
    rw [hlines] <;> rfl

theorem Line.liesOn_atEnd {lines : List (List Char)} (h : ¬ Text.EndsBare lines) {f : Finding}
    (hf : f ∈ Line.atEnd lines) : f.LiesOn lines := by
  unfold Text.EndsBare at h
  simp only [← List.head?_reverse] at h
  unfold Line.atEnd at hf
  split at hf
  · cases hf
  · next last before hlines =>
    have hlength : lines.length = before.length + 1 := by
      rw [← List.length_reverse, hlines, List.length_cons]
    have hlast (rule : RuleKey) : (found rule [] lines.length 1).LiesOn lines :=
      ⟨rfl, by simp only [found]; omega, Int.le_refl _⟩
    have hbare : ¬ (last == ['\n'] || last == ['\r'] || last == ['\r', '\n']) = true := by
      rw [hlines, List.head?_cons] at h
      simpa [or_assoc] using h
    rw [if_neg hbare] at hf
    split at hf
    · split at hf
      · split at hf
        · rw [List.mem_singleton.mp hf]
          exact hlast _
        · cases hf
      · cases hf
    · split at hf
      · cases hf
      · rw [List.mem_singleton.mp hf]
        exact hlast _

theorem Line.mem_checkEnds {lines : List (List Char)} {f : Finding} (h : f ∈ Line.checkEnds lines) :
    f.LiesOn lines ∨ f.rule = .tooManyTrailingBlankLines ∧ Text.EndsBare lines := by
  rcases List.mem_append.mp h with htrailing | hend
  · obtain ⟨⟨line, number⟩, hmem, hf⟩ := List.mem_flatMap.mp htrailing
    exact Or.inl (trailing_spec hmem hf).2
  · by_cases hbare : Text.EndsBare lines
    · rw [atEnd_of_endsBare hbare] at hend
      exact Or.inr ⟨congrArg Finding.rule (List.mem_singleton.mp hend), hbare⟩
    · exact Or.inl (liesOn_atEnd hbare hend)

theorem Line.among_checkEnds {lines : List (List Char)} (h : Text.EndsBare lines) :
    RuleKey.tooManyTrailingBlankLines.among (Line.checkEnds lines) =
      [found .tooManyTrailingBlankLines [] (lines.length + 1) 1] := by
  have htrailing : RuleKey.tooManyTrailingBlankLines.among
      ((Line.numbered lines).flatMap fun entry => Line.trailing entry.1 entry.2) = [] := by
    apply RuleKey.among_eq_nil
    intro f hf
    obtain ⟨entry, hmem, hf⟩ := List.mem_flatMap.mp hf
    rw [(trailing_spec hmem hf).1]
    decide
  rw [Line.checkEnds, RuleKey.among_append, atEnd_of_endsBare h]
  exact congrArg (· ++ _) htrailing

end Check

namespace RuleKey

def lineChecker : RuleKey → Checker
  | lineTooLong => .lineLength
  | ignoredData => .ignoredData
  | _ => .trailingSpace

def lineFindings (key : RuleKey) (values : Values) (lines : List (List Char)) : List Finding :=
  match key with
  | lineTooLong => Check.Line.checkLength values lines
  | ignoredData => Check.IgnoredData.check none lines
  | _ => Check.Line.checkEnds lines

variable {key : RuleKey}

theorem mem_keys_lineChecker (h : key.isOfLines = true) : key ∈ key.lineChecker.keys := by
  cases key <;> first | exact absurd h Bool.false_ne_true | decide

private theorem suits_lineChecker (key : RuleKey) (modern : Bool) : key.lineChecker.suits modern = true := by
  unfold lineChecker
  split <;> rfl

private theorem run_lineChecker (h : key.isOfLines = true) {job : Job} {text : List Char}
    (htext : job.content = .text text) (values : Values) (w : Wake) :
    (key.lineChecker.run job values w).1 = .ok (key.lineFindings values (Text.lines text)) := by
  cases key <;> first
    | exact absurd h Bool.false_ne_true
    | simp only [lineChecker, Checker.run, htext]; rfl

theorem liesOn_lineFindings {values : Values} {lines : List (List Char)} {f : Finding}
    (hf : f ∈ key.lineFindings values lines) :
    f.LiesOn lines ∨ f.rule = .tooManyTrailingBlankLines ∧ Text.EndsBare lines := by
  unfold lineFindings at hf
  split at hf
  · exact Or.inl (Check.Line.liesOn_checkLength hf)
  · exact Or.inl (@Check.IgnoredData.liesOn_checkFrom [] lines false f hf)
  · exact Check.Line.mem_checkEnds hf

end RuleKey

/-! ## What is left of it -/

namespace Checker

variable {host : Host} {on : RuleKey → Bool} {t : Tuning} {c : Checker} {source : String}
  {f : Finding}

private theorem issueOf?_of_off {off : Disablers} (h : on f.rule = false) :
    (c.tuned host on t).issueOf? source off f = none := by
  rw [Option.eq_none_iff_forall_not_mem]
  intro i hi
  have hon := (issueOf_eq_some host on t c (CheckerEntry.issueOf_of_issueOf? hi)).2.1
  rw [h] at hon
  exact Bool.false_ne_true hon

theorem issueOf?_of_covered {off : Disablers}
    (h : off.covers (f.line :: f.extraLines) f.rule.id f.rule.name = true) :
    (c.tuned host on t).issueOf? source off f = none := by
  rw [Option.eq_none_iff_forall_not_mem]
  intro i hi
  have hissue := CheckerEntry.issueOf_of_issueOf? hi
  obtain ⟨-, -, hid, hname, -⟩ := issueOf_eq_some host on t c hissue
  have hkept := (Option.filter_eq_some_iff.mp hi).2
  obtain ⟨rule, desc, -, -, rfl⟩ := CheckerEntry.exists_rule_of_issueOf hissue
  dsimp only at hid hname hkept
  rw [hid, hname, h] at hkept
  exact Bool.false_ne_true hkept

theorem issueOf?_of_not_covered {off : Disablers} (hkey : f.rule ∈ c.keys) (hfills : f.Fills)
    (hon : on f.rule = true)
    (h : off.covers (f.line :: f.extraLines) f.rule.id f.rule.name = false) :
    (c.tuned host on t).issueOf? source off f = some (f.issue t source) := by
  rw [CheckerEntry.issueOf?, issueOf_of_fills host on t c hkey hfills, if_pos hon]
  exact Option.filter_eq_some_iff.mpr ⟨rfl, by rw [Finding.issue, h]; rfl⟩

end Checker

namespace Linter

variable {host : Host} {on : RuleKey → Bool} {t : Tuning} {memory : Memory} {fileName : String}
  {text : List Char} {document : Document} {key : RuleKey} {name : String} {issues : List Issue}

/-- The issues of a rule on lines are those of its findings that are kept. -/
theorem reported_of_lines (hkey : key.isOfLines = true)
    (hwhole : ¬ (Content.text text).disablers.wholeFile = true)
    (h : (check ⟨host, .tuned host on t, memory⟩ ⟨fileName, .text text, document⟩).1 =
      .ok issues) :
    key.reported issues =
      (key.among (key.lineFindings (t.values key.lineChecker) (Text.lines text))).filterMap
        ((key.lineChecker.tuned host on t).issueOf? fileName (Content.text text).disablers) := by
  have hmem := RuleKey.mem_keys_lineChecker hkey
  have hkept := issueOf?_tuned host on t memory hmem (s := ⟨fileName, .text text, document⟩) hwhole
  rw [← hkept]
  refine reported_of_among hmem (key.suits_lineChecker _) rule_of_mem_among ?_ h memory
  intro findings hrun
  rw [Except.ok.inj (hrun.symm.trans (RuleKey.run_lineChecker hkey rfl _ _))]

/-- Under a comment on the first line that switches off a rule on lines, and that no later one takes
back, only empty lines at the end of the file are reported, on the line after the last. -/
theorem lines_reported_of_opening (hkey : key.isOfLines = true) (hcalled : key.IsCalled name)
    (hname : Disabler.IsPlainName name) (hall : name ≠ "all")
    (hfirst : ((Text.lines text).map Text.chomp).head? = some (Disabler.opening name))
    (hlater : ∀ line ∈ ((Text.lines text).map Text.chomp).tail, ¬ Disabler.Ends line name)
    (h : (check ⟨host, .tuned host on t, memory⟩ ⟨fileName, .text text, document⟩).1 =
      .ok issues) :
    (key.reported issues).map (·.line) =
      if key = .tooManyTrailingBlankLines ∧ on key = true ∧ Text.EndsBare (Text.lines text) then
        [((Text.lines text).length : Int) + 1]
      else [] := by
  have hoff : (Content.text text).disablers = .ofLines ((Text.lines text).map Text.chomp) := rfl
  have hlength : ((Text.lines text).map Text.chomp).length = (Text.lines text).length :=
    List.length_map _
  rw [reported_of_lines hkey (hoff ▸ Disablers.not_wholeFile_of_opening hname hall hfirst) h, hoff]
  have hcovered (f : Finding) (hrule : f.rule = key) (hlies : f.LiesOn (Text.lines text)) :
      (Disablers.ofLines ((Text.lines text).map Text.chomp)).covers (f.line :: f.extraLines)
        f.rule.id f.rule.name = true := by
    rw [hlies.alone, hrule]
    exact Disablers.covers_of_switchedOff hcalled
      (Disabler.switchedOff_of_opening hname hfirst hlater hlies.first (hlength ▸ hlies.last))
  split
  · next hend =>
    obtain ⟨rfl, hon, hbare⟩ := hend
    have hplain : '%' ∉ RuleKey.tooManyTrailingBlankLines.template.toList := by decide +kernel
    have hfills : (found .tooManyTrailingBlankLines [] ((Text.lines text).length + 1) 1).Fills :=
      ⟨_, Text.fill_of_no_place hplain⟩
    have hpast := Disablers.not_covers_past_end ((Text.lines text).map Text.chomp)
      RuleKey.tooManyTrailingBlankLines.id RuleKey.tooManyTrailingBlankLines.name
    rw [hlength] at hpast
    have hkept : (RuleKey.tooManyTrailingBlankLines.lineChecker.tuned host on t).issueOf? fileName
        (.ofLines ((Text.lines text).map Text.chomp))
        (found .tooManyTrailingBlankLines [] ((Text.lines text).length + 1) 1) = some _ :=
      Checker.issueOf?_of_not_covered (RuleKey.mem_keys_lineChecker hkey) hfills hon hpast
    rw [show RuleKey.tooManyTrailingBlankLines.lineFindings _ (Text.lines text) =
      Check.Line.checkEnds (Text.lines text) from rfl, Check.Line.among_checkEnds hbare,
      List.filterMap_cons, hkept]
    rfl
  · next hend =>
    rw [List.map_eq_nil_iff, List.filterMap_eq_nil_iff]
    intro f hf
    have hrule := rule_of_mem_among f hf
    rcases RuleKey.liesOn_lineFindings (List.mem_filter.mp hf).1 with hlies | ⟨htoo, hbare⟩
    · exact Checker.issueOf?_of_covered (hcovered f hrule hlies)
    · -- past the end nothing is covered, so the rule is off
      apply Checker.issueOf?_of_off
      rw [hrule]
      exact eq_false_of_ne_true fun hon => hend ⟨hrule.symm.trans htoo, hon, hbare⟩

end Linter

theorem RuleKey.isPlainName_of_isOfLines {key : RuleKey} (h : key.isOfLines = true) {name : String}
    (hcalled : key.IsCalled name) : Disabler.IsPlainName name ∧ name ≠ "all" := by
  have hplain (name : String) (hname : name.toList ≠ [] ∧
      (name.toList.all fun ch => Disabler.isRuleNameChar ch && ch != ',') = true ∧ name ≠ "all") :
      Disabler.IsPlainName name ∧ name ≠ "all" := by
    refine ⟨⟨hname.1, fun ch hch => ?_⟩, hname.2.2⟩
    simpa using List.all_eq_true.mp hname.2.1 ch hch
  apply hplain
  rcases hcalled with rfl | rfl
  · cases key <;> first | exact absurd h Bool.false_ne_true | decide +kernel
  · cases key <;> first | exact absurd h Bool.false_ne_true | decide +kernel

namespace Options

/-- On the first line of a text, `# robocop: disable=` with the name or id of a rule on lines, which no later
line takes back, leaves no issue of the rule, with one exception: if the rule is too-many-trailing-blank-lines
(1010), and the last line holds nothing but its end, this is reported on the line after the last. -/
theorem block_reaches_end_unless_bare (o : Options) {host : Host} {notes : List String} {s : Setup}
    (h : o.setup host = (notes, .ok s)) {key : RuleKey} (hkey : key.isOfLines = true)
    {name : String} (hcalled : key.IsCalled name) {text : List Char}
    (hfirst : ((Text.lines text).map Text.chomp).head? = some (Disabler.opening name))
    (hlater : ∀ line ∈ ((Text.lines text).map Text.chomp).tail, ¬ Disabler.Ends line name)
    (memory : Memory) (fileName : String) (document : Document) {issues : List Issue}
    (hissues : ({ s.linter with memory := memory }.check ⟨fileName, .text text, document⟩).1 =
      .ok issues) :
    (key.reported issues).map (·.line) =
      if key = .tooManyTrailingBlankLines ∧ s.linter.registry.enables key.id = true ∧
          Text.EndsBare (Text.lines text) then
        [((Text.lines text).length : Int) + 1]
      else [] := by
  obtain ⟨-, t, -, hlinter⟩ := setup_ok_iff.mp h
  obtain ⟨hname, hall⟩ := RuleKey.isPlainName_of_isOfLines hkey hcalled
  rw [hlinter] at hissues
  rw [enables_eq_picks h]
  exact Linter.lines_reported_of_opening hkey hcalled hname hall hfirst hlater hissues

end Options

def Subject.blankUnderBlock : Subject :=
  ⟨"a.robot", .text "# robocop: disable=1001\n*** \n".toList, ⟨none, []⟩⟩

def Subject.bareUnderBlock : Subject :=
  ⟨"a.robot", .text "# robocop: disable=1010\n\n".toList, ⟨none, []⟩⟩

private theorem Linter.marks?_blankUnderBlock :
    marks? ⟨.plain, .tuned .plain RuleKey.anyRule .start, .blank⟩ .blankUnderBlock = some [("0203", 1)] := by
  have hoff : Subject.blankUnderBlock.content.disablers =
      ⟨[("1001", ⟨none, [], [(1, 2)]⟩)], false, true⟩ := by decide +kernel
  simp only [marks?, check, Subject.job, hoff]
  decide +kernel

private theorem Linter.marks?_bareUnderBlock :
    marks? ⟨.plain, .tuned .plain RuleKey.anyRule .start, .blank⟩ .bareUnderBlock =
      some [("0704", 2), ("0203", 1), ("1010", 3)] := by
  have hoff : Subject.bareUnderBlock.content.disablers =
      ⟨[("1010", ⟨none, [], [(1, 2)]⟩)], false, true⟩ := by decide +kernel
  simp only [marks?, check, Subject.job, hoff]
  decide +kernel

namespace Options

theorem block_reaches_end_unless_bare_blank :
    ∃ (s : Setup) (issues : List Issue), standard.setup .plain = ([], .ok s) ∧
      (s.linter.check .blankUnderBlock).1 = .ok issues ∧
      (RuleKey.trailingWhitespace.reported issues).map (·.line) = [] := by
  obtain ⟨issues, hissues, -⟩ := Linter.check_of_marks? Linter.marks?_blankUnderBlock
  have hcalled : RuleKey.trailingWhitespace.IsCalled "1001" := Or.inr rfl
  have hlines : (Text.lines "# robocop: disable=1001\n*** \n".toList).map Text.chomp =
      [Disabler.opening "1001", "*** ".toList] := by decide +kernel
  have hlater : ∀ line ∈ ["*** ".toList], ¬ Disabler.Ends line "1001" := by decide +kernel
  refine ⟨_, issues, setup_standard_anyRule, hissues, ?_⟩
  exact block_reaches_end_unless_bare standard setup_standard_anyRule rfl hcalled
    (by rw [hlines]; rfl) (by rw [hlines]; exact hlater) .blank _ _ hissues

/-- The empty line at the end of the file is reported, on a line that the file does not have. -/
theorem bare_end_reported_under_block :
    ∃ (s : Setup) (issues : List Issue), standard.setup .plain = ([], .ok s) ∧
      (s.linter.check .bareUnderBlock).1 = .ok issues ∧
      (RuleKey.tooManyTrailingBlankLines.reported issues).map (fun i => (i.ruleId, i.line)) =
        [("1010", 3)] := by
  obtain ⟨issues, hissues, hmarks⟩ := Linter.check_of_marks? Linter.marks?_bareUnderBlock
  refine ⟨_, issues, setup_standard_anyRule, hissues, ?_⟩
  rw [RuleKey.map_reported, hmarks]
  decide

end Options

end SuiteLint
