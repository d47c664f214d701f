import Mathlib.Data.List.TakeWhile
import SuiteLint.Proofs.RuleReports

/-!
# Settings that do not exist

A row whose setting does not exist is looked at by two checks. One leaves it to the other (1016) if the name
is that of a setting of suites with blanks before it, so together they report one issue for the row.
-/

namespace SuiteLint

/-! ## Replacing one element -/

theorem gather_replace {α : Type} (check : α → Except Breakdown (List Finding)) {xs ys : List α} {x : α}
    {findings : List Finding} (h : gather check (xs ++ x :: ys) = .ok findings) :
    ∃ front here back, findings = front ++ here ++ back ∧ check x = .ok here ∧
      ∀ y there, check y = .ok there →
        gather check (xs ++ y :: ys) = .ok (front ++ there ++ back) := by
  rw [gather_append] at h
  obtain ⟨front, hxs, h⟩ := exists_of_bind_eq_ok h
  obtain ⟨rest, hrest, h⟩ := exists_of_bind_eq_ok h
  obtain ⟨here, back, hx, hys, rfl⟩ := gather_cons_eq_ok_iff.mp hrest
  refine ⟨front, here, back, ?_, hx, fun y there hy => ?_⟩
  · rw [List.append_assoc]
    exact (Except.ok.inj h).symm
  · rw [gather_append, hxs, gather, hy, hys, List.append_assoc]
    rfl

/-- Where all rules are on, further findings are further issues. -/
theorem Checker.issuesOf_insert {host : Host} {on : RuleKey → Bool} {t : Tuning} {c : Checker}
    (hon : ∀ key, on key = true) {source : String} {front there back : List Finding}
    (hthere : ∀ f ∈ there, f.rule ∈ c.keys ∧ f.Fills) {issues : List Issue}
    (h : (c.tuned host on t).issuesOf source .none (front ++ back) = .ok issues) :
    ∃ before after, issues = before ++ after ∧
      (c.tuned host on t).issuesOf source .none (front ++ there ++ back) =
        .ok (before ++ there.map (·.issue t source) ++ after) := by
  have hmade := mapM_issueOf_of_fills host on t c source hthere
  simp only [hon, if_true] at hmade
  simp only [CheckerEntry.issuesOf, List.mapM_append, hmade] at h ⊢
  cases hfront : front.mapM ((c.tuned host on t).issueOf source) with
  | error e => simp [hfront, bind, Except.bind] at h
  | ok first =>
    cases hback : back.mapM ((c.tuned host on t).issueOf source) with
    | error e => simp [hfront, hback, bind, Except.bind] at h
    | ok more =>
      simp only [hfront, hback, bind, Except.bind, pure, Except.pure, Except.ok.injEq,
        List.filterMap_append, List.filter_append] at h
      refine ⟨_, _, h.symm, ?_⟩
      simp [bind, Except.bind, pure, Except.pure, Disablers.covers, Disablers.none]

/-! ## What is said of a setting that does not exist -/

/-- A part without a separator lies on one side of it. -/
theorem Text.infix_of_infix_append_cons {part before after : List Char} {sep : Char} (hsep : sep ∉ part)
    (h : part <:+: before ++ sep :: after) : part <:+: before ∨ part <:+: after := by
  obtain ⟨front, back, h⟩ := h
  rw [List.append_assoc, List.append_eq_append_iff] at h
  rcases h with ⟨gap, rfl, hgap⟩ | ⟨gap, rfl, hgap⟩
  · rcases List.append_eq_append_iff.mp hgap with ⟨more, rfl, -⟩ | ⟨more, rfl, hmore⟩
    · exact Or.inl ⟨front, more, List.append_assoc _ _ _⟩
    · cases more with
      | nil => exact Or.inl ⟨front, [], by simp⟩
      | cons c more =>
        rw [List.cons_append, List.cons.injEq] at hmore
        exact absurd (by simp [hmore.1]) hsep
  · cases gap with
    | nil =>
      cases part with
      | nil => exact Or.inl List.nil_infix
      | cons c part =>
        rw [List.nil_append, List.cons_append, List.cons.injEq] at hgap
        exact absurd (by simp [hgap.1]) hsep
    | cons c gap =>
      rw [List.cons_append, List.cons.injEq] at hgap
      exact Or.inr ⟨gap, back, by rw [hgap.2, List.append_assoc]⟩

namespace Fault

def unknownSetting (name : String) : String := "Non-existing setting '" ++ name ++ "'."

@[simp] theorem toList_unknownSetting (name : String) :
    (unknownSetting name).toList = "Non-existing setting '".toList ++ (name.toList ++ ['\'', '.']) := by
  have hback : "'.".toList = ['\'', '.'] := rfl
  rw [← hback, ← List.append_assoc]
  exact String.toList_append.trans (congrArg (· ++ _) String.toList_append)

private theorem longestBefore_closesQuote (name : List Char) :
    longestBefore closesQuote (name ++ ['\'', '.']) = some name := by
  induction name with
  | nil => rfl
  | cons c name ih => rw [List.cons_append, longestBefore, ih]

@[simp] theorem isEmpty_unknownSetting (name : String) : (unknownSetting name).isEmpty = false := by
  rw [Bool.eq_false_iff, ne_eq, String.isEmpty_iff, ← String.toList_inj, toList_unknownSetting,
    ← List.append_assoc]
  exact List.append_ne_nil_of_right_ne_nil _ (List.cons_ne_nil _ _)

theorem unknownSetting?_unknownSetting {name : String} (h : '\n' ∉ name.toList) :
    unknownSetting? (unknownSetting name) = some name.toList := by
  have hline : restOfLine (name.toList ++ ['\'', '.']) = name.toList ++ ['\'', '.'] := by
    rw [restOfLine, List.takeWhile_eq_self_iff]
    intro c hc
    rcases List.mem_append.mp hc with hc | hc
    · exact bne_iff_ne.mpr fun heq => h (heq ▸ hc)
    · simp only [List.mem_cons, List.not_mem_nil, or_false] at hc
      rcases hc with rfl | rfl <;> decide
  have hafter : Text.after? "Non-existing setting '".toList (unknownSetting name).toList =
      some (name.toList ++ ['\'', '.']) := Text.after?_eq_some_iff.mpr (toList_unknownSetting name)
  rw [unknownSetting?]
  cases htext : (unknownSetting name).toList with
  | nil =>
    have hempty := isEmpty_unknownSetting name
    rw [String.toList_eq_nil_iff.mp htext] at hempty
    cases hempty
  | cons c rest =>
    rw [htext] at hafter
    simp only [namedAfter?, hafter, hline, longestBefore_closesQuote, Option.some_or]

theorem topic_unknownSetting {name : String} (hline : '\n' ∉ name.toList)
    (h : mentions name "Invalid argument syntax" = false) : topic (unknownSetting name) = .setting := by
  have hphrase : mentions (unknownSetting name) "Invalid argument syntax" = false := by
    have hfront : "Non-existing setting '".toList = "Non-existing setting ".toList ++ ['\''] := by
      decide
    rw [Bool.eq_false_iff, mentions, ne_eq, Text.has_iff, toList_unknownSetting, hfront,
      List.append_assoc]
    intro hinfix
    -- The phrase has no quote, so it would stand before, in or behind the name.
    have hquote : '\'' ∉ "Invalid argument syntax".toList := by decide
    rcases Text.infix_of_infix_append_cons hquote hinfix with hfront | hrest
    · exact absurd ((Text.has_iff _ _).mpr hfront) (by decide)
    · rcases Text.infix_of_infix_append_cons hquote hrest with hname | hback
      · exact Bool.eq_false_iff.mp h ((Text.has_iff _ _).mpr hname)
      · exact absurd ((Text.has_iff _ _).mpr hback) (by decide)
  rw [topic, hphrase, mentions_of_unknownSetting? (unknownSetting?_unknownSetting hline)]
  rfl

end Fault

namespace Check

open Fault

/-- A finding of one of the rules on the line of a node, with a message that can be filled in. -/
structure IsFindingOn (n : Node) (rules : List RuleKey) (f : Finding) : Prop where
  rule : f.rule ∈ rules
  fills : f.Fills
  line : f.line = anchor n.line

def IsShifted (name : List Char) : Prop :=
  (name.head?.any Text.isBlank) = true ∧ (suiteSettingAt? name).isSome = true

instance (name : List Char) : Decidable (IsShifted name) := inferInstanceAs (Decidable (_ ∧ _))

def settingRules : List RuleKey :=
  [.nonExistingSetting, .settingNotSupported, .notEnoughWhitespaceAfterSuiteSetting]

theorem ParsingError.isFindingOn_plain (n : Node) {rules : List RuleKey} {key : RuleKey}
    (hkey : key ∈ rules) (args : List String)
    (h : key.places? = some (args.map fun _ => .text)) :
    ∃ f, (.ok (plain key args n) : Except Breakdown _) = .ok [f] ∧ IsFindingOn n rules f := by
  have htakes : ∀ texts : List String,
      List.Forall₂ Text.Place.Takes (texts.map fun _ => .text) (texts.map .string) := by
    intro texts
    induction texts with
    | nil => exact .nil
    | cons text texts ih => exact .cons trivial ih
  exact ⟨_, rfl, hkey, Finding.fills_of_places rfl rfl h (htakes args), rfl⟩

/-- A setting that is not shifted is sorted under one rule. -/
theorem ParsingError.setting_of_not_shifted (n : Node) {error : String} {name : List Char}
    (h : unknownSetting? error = some name) (hname : name ≠ []) (hdots : ¬ StartsWithDots name)
    (hshifted : ¬ IsShifted name) :
    ∃ f, setting n error = .ok [f] ∧ IsFindingOn n settingRules f := by
  obtain ⟨c, rest, rfl⟩ := List.exists_cons_of_ne_nil hname
  have hnotSupported : RuleKey.settingNotSupported.places? = some [.text, .text, .text] :=
    RuleKey.places_of_template rfl rfl
  have hwhitespace : RuleKey.notEnoughWhitespaceAfterSuiteSetting.places? = some [.text] :=
    RuleKey.places_of_template rfl rfl
  have hnonExisting : RuleKey.nonExistingSetting.places? = some [.text] :=
    RuleKey.places_of_template rfl rfl
  unfold StartsWithDots at hdots
  unfold setting
  simp only [h, if_neg hdots]
  split
  · exact isFindingOn_plain n (by decide) _ hnotSupported
  · split
    · exact isFindingOn_plain n (by decide) _ hnotSupported
    · split
      · next title htitle =>
        have hblank : ¬ Text.isBlank c = true := fun hblank => hshifted ⟨hblank, by simp [htitle]⟩
        rw [if_neg hblank]
        exact isFindingOn_plain n (by decide) _ hwhitespace
      · exact isFindingOn_plain n (by decide) _ hnonExisting

/-- The check of the first column takes the settings that are shifted. -/
theorem Layout.inSettingFault_of_unknown (n : Node) {error : String} {name : List Char}
    (h : unknownSetting? error = some name) (hname : name ≠ []) :
    (¬ IsShifted name → inSettingFault n error = .ok []) ∧
      (IsShifted name → ∃ f, inSettingFault n error = .ok [f] ∧
        IsFindingOn n [.suiteSettingShouldBeLeftAligned] f) := by
  obtain ⟨c, rest, rfl⟩ := List.exists_cons_of_ne_nil hname
  have hiff : (Text.isBlank c && (suiteSettingAt? (c :: rest)).isSome) = true ↔ IsShifted (c :: rest) :=
    Bool.and_eq_true_iff
  simp only [inSettingFault, h]
  constructor
  · intro hnot
    rw [if_neg (mt hiff.mp hnot)]
  · intro hshifted
    rw [if_pos (hiff.mpr hshifted)]
    exact ⟨_, rfl, List.mem_singleton_self _, Finding.fills_of_template rfl rfl rfl rfl .nil, rfl⟩

end Check

/-! ## A place among the settings of a document -/

theorem Node.visitedUntilAll_append (stop : BlockKind → Bool) (ns ms : List Node) :
    visitedUntilAll stop (ns ++ ms) = visitedUntilAll stop ns ++ visitedUntilAll stop ms := by
  induction ns with
  | nil => rfl
  | cons n ns ih => rw [List.cons_append, visitedUntilAll, visitedUntilAll, ih, List.append_assoc]

def Statement.withoutFaults (s : Statement) : Statement := { s with errors := [] }

/-- A document with a gap for one row in a section for settings. -/
structure SettingPlace where
  source : Option String
  sectionsBefore : List Section
  header : Option Statement
  rowsBefore : List Node
  rowsAfter : List Node
  sectionsAfter : List Section

namespace SettingPlace

open Check Fault

def settings (p : SettingPlace) (row : Statement) : Section :=
  ⟨.settings, p.header, p.rowsBefore ++ .leaf row :: p.rowsAfter⟩

def fill (p : SettingPlace) (row : Statement) : Document :=
  ⟨p.source, p.sectionsBefore ++ p.settings row :: p.sectionsAfter⟩

/-- A row in the gap is visited once, and all else does not depend on it. -/
theorem visited_fill (p : SettingPlace) :
    ∃ before after, ∀ row, (p.fill row).visited = before ++ .leaf row :: after := by
  refine ⟨p.sectionsBefore.flatMap Section.visited ++ (p.header.toList.map .leaf ++
    Node.visitedUntilAll (fun _ => false) p.rowsBefore), Node.visitedUntilAll (fun _ => false)
    p.rowsAfter ++ p.sectionsAfter.flatMap Section.visited, fun row => ?_⟩
  have hrow : Node.visitedUntilAll (fun _ => false) (.leaf row :: p.rowsAfter) =
      .leaf row :: Node.visitedUntilAll (fun _ => false) p.rowsAfter := by
    rw [Node.visitedUntilAll, Node.visitedUntil]
    rfl
  have hsettings : (p.settings row).visited = p.header.toList.map .leaf ++
      (Node.visitedUntilAll (fun _ => false) p.rowsBefore ++
        .leaf row :: Node.visitedUntilAll (fun _ => false) p.rowsAfter) := by
    rw [← hrow, ← Node.visitedUntilAll_append]
    rfl
  rw [Document.visited, fill, List.flatMap_append, List.flatMap_cons, hsettings]
  simp only [List.append_assoc, List.cons_append]

/-- The faults of a row in the gap are sorted one by one, and all else is found without them. -/
theorem check_fill (p : SettingPlace) {row : Statement} (hcall : row.kind ≠ .keywordCall)
    {there : List Finding} (hthere : gather (ParsingError.handle (.leaf row)) row.errors = .ok there)
    {findings : List Finding} (h : ParsingError.check (p.fill row.withoutFaults) = .ok findings) :
    ∃ front back, findings = front ++ back ∧
      ParsingError.check (p.fill row) = .ok (front ++ there ++ back) := by
  obtain ⟨before, after, hvisited⟩ := p.visited_fill
  rw [ParsingError.check, hvisited] at h
  obtain ⟨front, here, back, rfl, hhere, hreplace⟩ := gather_replace _ h
  have hcall' : row.withoutFaults.kind ≠ .keywordCall := hcall
  have hnil : here = [] := by
    simp only [ParsingError.inNode, if_neg hcall'] at hhere
    exact (Except.ok.inj hhere).symm
  refine ⟨front, back, by rw [hnil, List.append_nil], ?_⟩
  rw [ParsingError.check, hvisited]
  refine hreplace _ there ?_
  simp only [ParsingError.inNode, if_neg hcall, hthere]

/-- The faults of a row in the gap are looked at for the first column, and all else is found without
them. -/
theorem checkAlignment_fill (p : SettingPlace) {row : Statement} {there : List Finding}
    (hthere : Layout.inSettingRow (.leaf row) = .ok there) {findings : List Finding}
    (h : Layout.checkAlignment (p.fill row.withoutFaults) = .ok findings) :
    ∃ front back, findings = front ++ back ∧
      Layout.checkAlignment (p.fill row) = .ok (front ++ there ++ back) := by
  obtain ⟨front, here, back, rfl, hhere, hreplace⟩ := gather_replace _ h
  obtain ⟨rowsFront, inRow, rowsBack, rfl, hinRow, hreplaceRow⟩ :=
    gather_replace Layout.inSettingRow (x := .leaf row.withoutFaults) hhere
  obtain rfl : [] = inRow := Except.ok.inj hinRow
  refine ⟨front ++ rowsFront, rowsBack ++ back, by simp, ?_⟩
  have hall := hreplace (p.settings row) _ (hreplaceRow (.leaf row) there hthere)
  rw [Layout.checkAlignment, fill, hall]
  simp only [List.append_assoc]

end SettingPlace

/-! ## What the two checks report -/

/-- Where all rules are on, what a checker finds in one document beyond another is what it reports beyond
it. -/
theorem Linter.scan_insert {host : Host} {on : RuleKey → Bool} {t : Tuning} (hon : ∀ key, on key = true)
    {memory : Memory} {c : Checker} (check : Document → Except Breakdown (List Finding))
    (hcheck : ∀ job vs d, (c.run job vs ⟨d, memory⟩).1 = check d)
    {fileName : String} {content : Content} {d d' : Document} {there : List Finding}
    (hthere : ∀ f ∈ there, f.rule ∈ c.keys ∧ f.Fills)
    (hd : ∀ findings, check d = .ok findings → ∃ front back, findings = front ++ back ∧
      check d' = .ok (front ++ there ++ back)) {issues : List Issue}
    (h : scan ⟨host, .tuned host on t, memory⟩ c ⟨fileName, content, d⟩ = .ok issues) :
    ∃ before after, issues = before ++ after ∧
      scan ⟨host, .tuned host on t, memory⟩ c ⟨fileName, content, d'⟩ =
        .ok (before ++ there.map (·.issue t fileName) ++ after) := by
  rw [scan_tuned] at h ⊢
  obtain ⟨findings, hrun, hissues⟩ := outcome_ok h
  have htag : (c.tuned host on t).tag = c := rfl
  rw [htag, hcheck] at hrun
  obtain ⟨front, back, rfl, hd'⟩ := hd findings hrun
  obtain ⟨before, after, hsplit, hmade⟩ := Checker.issuesOf_insert hon hthere hissues
  refine ⟨before, after, hsplit, ?_⟩
  rw [outcome, htag, hcheck, hd']
  exact hmade

namespace Check

open Fault

/-- One of the two checks finds one thing in a row whose setting does not exist, the other nothing. -/
theorem unknown_setting_found_once {row : Statement} {name : String}
    (herrors : row.errors = [unknownSetting name]) (hname : name ≠ "") (hline : '\n' ∉ name.toList)
    (hphrase : mentions name "Invalid argument syntax" = false)
    (hdots : ¬ StartsWithDots name.toList) :
    ∃ f, (gather (ParsingError.handle (.leaf row)) row.errors = .ok [f] ∧
        Layout.inSettingRow (.leaf row) = .ok [] ∧ IsFindingOn (.leaf row) settingRules f) ∨
      (gather (ParsingError.handle (.leaf row)) row.errors = .ok [] ∧
        Layout.inSettingRow (.leaf row) = .ok [f] ∧
        IsFindingOn (.leaf row) [.suiteSettingShouldBeLeftAligned] f) := by
  have hread := unknownSetting?_unknownSetting hline
  have hfull : name.toList ≠ [] := mt String.toList_eq_nil_iff.mp hname
  have hsorted : gather (ParsingError.handle (.leaf row)) row.errors =
      gather (ParsingError.setting (.leaf row)) [unknownSetting name] := by
    rw [herrors]
    refine gather_congr fun error herror => ?_
    rw [List.mem_singleton.mp herror, ParsingError.handle_eq _ (isEmpty_unknownSetting name),
      topic_unknownSetting hline hphrase]
  have hlooked : Layout.inSettingRow (.leaf row) =
      gather (Layout.inSettingFault (.leaf row)) [unknownSetting name] := by
    have hrow : (Node.leaf row).errors = [unknownSetting name] := herrors
    rw [Layout.inSettingRow, hrow, List.filter_cons, if_pos (mentions_of_unknownSetting? hread)]
    rfl
  have hshift := Layout.inSettingFault_of_unknown (.leaf row) hread hfull
  simp only [hsorted, hlooked, gather]
  by_cases hshifted : IsShifted name.toList
  · obtain ⟨f, hf, hon⟩ := hshift.2 hshifted
    have hnone : ParsingError.setting (.leaf row) (unknownSetting name) = .ok [] := by
      obtain ⟨c, rest, hcons⟩ := List.exists_cons_of_ne_nil hfull
      rw [hcons] at hread hdots hshifted
      exact (ParsingError.setting_of_plain _ hread hdots).mpr hshifted
    refine ⟨f, Or.inr ⟨?_, ?_, hon⟩⟩
    · rw [hnone]
      rfl
    · rw [hf]
      rfl
  · obtain ⟨f, hf, hon⟩ := ParsingError.setting_of_not_shifted (.leaf row) hread hfull hdots hshifted
    refine ⟨f, Or.inl ⟨?_, ?_, hon⟩⟩
    · rw [hf]
      rfl
    · rw [hshift.1 hshifted]
      rfl

end Check

namespace Options

open Check Fault

/-- Where all rules are on, a row among the settings whose only fault is that its setting does not exist gives
rise to one issue, on its line: either non-existing-setting (0408), setting-not-supported (0409) or
not-enough-whitespace-after-suite-setting (0411), or suite-setting-should-be-left-aligned (1016). -/
theorem unknown_setting_reported_once (o : Options) {host : Host} {notes : List String} {s : Setup}
    (h : o.setup host = (notes, .ok s))
    (hall : ∀ key : RuleKey, s.linter.registry.enables key.id = true) (memory : Memory)
    {fileName : String} {content : Content} (place : SettingPlace) {row : Statement} {name : String}
    (hcall : row.kind ≠ .keywordCall) (herrors : row.errors = [unknownSetting name])
    (hname : name ≠ "") (hline : '\n' ∉ name.toList)
    (hphrase : mentions name "Invalid argument syntax" = false)
    (hdots : ¬ StartsWithDots name.toList) {found more : List Issue}
    (hfound : (s.linter.withMemory memory).scan .parsingErrors
      ⟨fileName, content, place.fill row.withoutFaults⟩ = .ok found)
    (hmore : (s.linter.withMemory memory).scan .leftAlignment
      ⟨fileName, content, place.fill row.withoutFaults⟩ = .ok more) :
    ∃ (i : Issue) (before after : List Issue), i.line = anchor row.line ∧
      ((i.ruleId ∈ ["0408", "0409", "0411"] ∧ found = before ++ after ∧
        (s.linter.withMemory memory).scan .parsingErrors ⟨fileName, content, place.fill row⟩ =
          .ok (before ++ [i] ++ after) ∧
        (s.linter.withMemory memory).scan .leftAlignment ⟨fileName, content, place.fill row⟩ =
          .ok more) ∨
      (i.ruleId = "1016" ∧ more = before ++ after ∧
        (s.linter.withMemory memory).scan .parsingErrors ⟨fileName, content, place.fill row⟩ =
          .ok found ∧
        (s.linter.withMemory memory).scan .leftAlignment ⟨fileName, content, place.fill row⟩ =
          .ok (before ++ [i] ++ after))) := by
  obtain ⟨-, t, -, hlinter⟩ := setup_ok_iff.mp h
  have hon : ∀ key, o.selection.picks key = true := fun key =>
    (enables_eq_picks h key).symm.trans (hall key)
  have htuned : s.linter.withMemory memory = ⟨host, .tuned host o.selection.picks t, memory⟩ := by
    rw [hlinter]
    rfl
  rw [htuned] at hfound hmore ⊢
  have hsettingKeys : ∀ key ∈ settingRules, key ∈ Checker.parsingErrors.keys := by decide
  have halignKeys : ∀ key ∈ [RuleKey.suiteSettingShouldBeLeftAligned],
      key ∈ Checker.leftAlignment.keys := by decide
  -- Each check finds what it finds without the fault, and in addition what it finds in the row.
  have hsorted (there : List Finding) (hthere : ∀ f ∈ there, f.rule ∈ settingRules ∧ f.Fills)
      (hrow : gather (ParsingError.handle (.leaf row)) row.errors = .ok there) :=
    Linter.scan_insert hon ParsingError.check (fun _ _ _ => rfl)
      (fun f hf => ⟨hsettingKeys _ (hthere f hf).1, (hthere f hf).2⟩)
      (fun _ hfindings => place.check_fill hcall hrow hfindings) hfound
  have hlooked (there : List Finding)
      (hthere : ∀ f ∈ there, f.rule ∈ [RuleKey.suiteSettingShouldBeLeftAligned] ∧ f.Fills)
      (hrow : Layout.inSettingRow (.leaf row) = .ok there) :=
    Linter.scan_insert hon Layout.checkAlignment (fun _ _ _ => rfl)
      (fun f hf => ⟨halignKeys _ (hthere f hf).1, (hthere f hf).2⟩)
      (fun _ hfindings => place.checkAlignment_fill hrow hfindings) hmore
  obtain ⟨f, ⟨hf, hnone, hrule, hfills, hfline⟩ | ⟨hnone, hf, hrule, hfills, hfline⟩⟩ :=
    unknown_setting_found_once herrors hname hline hphrase hdots
  · obtain ⟨before, after, hsplit, hone⟩ := hsorted [f] (by simp [hrule, hfills]) hf
    obtain ⟨first, rest, rfl, hsame⟩ := hlooked [] (by simp) hnone
    have hid : ∀ key ∈ settingRules, key.id ∈ ["0408", "0409", "0411"] := by decide
    refine ⟨_, before, after, hfline, Or.inl ⟨hid _ hrule, hsplit, hone, ?_⟩⟩
    rw [hsame, List.map_nil, List.append_nil]
  · obtain ⟨before, after, hsplit, hone⟩ := hlooked [f] (by simp [hfills, List.mem_singleton.mp hrule]) hf
    obtain ⟨first, rest, rfl, hsame⟩ := hsorted [] (by simp) hnone
    have hid : f.rule.id = "1016" := by rw [List.mem_singleton.mp hrule]; rfl
    refine ⟨_, before, after, hfline, Or.inr ⟨hid, hsplit, ?_, hone⟩⟩
    rw [hsame, List.map_nil, List.append_nil]

end Options

def Statement.unknownSetting (name : String) (line : Nat) : Statement :=
  ⟨.error, [⟨.error, name, line, 0⟩, ⟨.eol, "\n", line, 20⟩], [Fault.unknownSetting name]⟩

/-- A gap between two rows whose settings do not exist either. -/
def SettingPlace.betweenFaults : SettingPlace where
  source := none
  sectionsBefore := []
  header := some ⟨.sectionHeader, [⟨.settingHeader, "*** Settings ***", 1, 0⟩], []⟩
  rowsBefore := [.leaf (.unknownSetting "Libraryy" 2)]
  rowsAfter := [.leaf (.unknownSetting " Resource" 4)]
  sectionsAfter := []

def Statement.shiftedLibrary : Statement := .unknownSetting " \tLi brary's" 3

def Subject.betweenFaults (row : Statement) : Subject :=
  ⟨"a.robot", .text [], SettingPlace.betweenFaults.fill row⟩

theorem Options.unknown_setting_reported_once_betweenFaults :
    ∃ (s : Setup) (found more found' more' : List Issue), standard.setup .plain = ([], .ok s) ∧
      s.linter.scan .parsingErrors (.betweenFaults Statement.shiftedLibrary.withoutFaults) = .ok found ∧
      s.linter.scan .leftAlignment (.betweenFaults Statement.shiftedLibrary.withoutFaults) = .ok more ∧
      s.linter.scan .parsingErrors (.betweenFaults .shiftedLibrary) = .ok found' ∧
      s.linter.scan .leftAlignment (.betweenFaults .shiftedLibrary) = .ok more' ∧
      found'.length + more'.length = found.length + more.length + 1 := by
  have hsetup := setup_standard .plain
  obtain ⟨found, hfound⟩ : ∃ found, Linter.scan ⟨.plain, .tuned .plain standard.selection.picks .start,
      .blank⟩ .parsingErrors (.betweenFaults Statement.shiftedLibrary.withoutFaults) = .ok found := by
    rw [Linter.scan_tuned]
    exact ⟨_, rfl⟩
  obtain ⟨more, hmore⟩ : ∃ more, Linter.scan ⟨.plain, .tuned .plain standard.selection.picks .start,
      .blank⟩ .leftAlignment (.betweenFaults Statement.shiftedLibrary.withoutFaults) = .ok more := by
    rw [Linter.scan_tuned]
    exact ⟨_, rfl⟩
  have hcall : Statement.shiftedLibrary.kind ≠ .keywordCall := by decide
  have hdots : ¬ Fault.StartsWithDots " \tLi brary's".toList := by
    unfold Fault.StartsWithDots
    decide +kernel
  obtain ⟨i, before, after, -, ⟨-, rfl, hfound', hmore'⟩ | ⟨-, rfl, hfound', hmore'⟩⟩ :=
    unknown_setting_reported_once standard hsetup (enables_standard hsetup) .blank .betweenFaults hcall rfl
      (by decide) (by decide +kernel) (by decide +kernel) hdots hfound hmore
  · refine ⟨_, _, _, _, _, hsetup, hfound, hmore, hfound', hmore', ?_⟩
    simp only [List.length_append, List.length_cons, List.length_nil]
    omega
  · refine ⟨_, _, _, _, _, hsetup, hfound, hmore, hfound', hmore', ?_⟩
    simp only [List.length_append, List.length_cons, List.length_nil]
    omega

end SuiteLint
