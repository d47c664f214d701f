import SuiteLint.Proofs.CheckerIndependence
import SuiteLint.Proofs.SettingEffects

/-!
# A selection of rules is a filter

A rule that is off is looked for all the same, and its issues are dropped; a checker whose rules are all
off is left out. Neither makes a difference for the other rules.
-/

namespace SuiteLint

def Registry.enables {κ : Type} (r : Registry κ) (name : String) : Bool :=
  (r.find? name).any (·.2.2.enabled)

theorem Checker.exists_mem_keys (key : RuleKey) : ∃ c : Checker, key ∈ c.keys := by
  have h : all.any (·.keys.contains key) = true := by cases key <;> rfl
  obtain ⟨c, -, hc⟩ := List.any_eq_true.mp h
  exact ⟨c, List.contains_iff_mem.mp hc⟩

theorem Registry.enables_tuned (host : Host) (on : RuleKey → Bool) (t : Tuning) (key : RuleKey) :
    (tuned host on t).enables key.id = on key := by
  obtain ⟨c, hc⟩ := Checker.exists_mem_keys key
  rw [enables, find?_tuned, Checker.owner?_eq_some_iff.mpr ⟨c.mem_all, hc, Or.inr rfl⟩]
  rfl

theorem Options.enables_eq_picks {o : Options} {host : Host} {notes : List String} {s : Setup}
    (h : o.setup host = (notes, .ok s)) (key : RuleKey) :
    s.linter.registry.enables key.id = o.selection.picks key := by
  obtain ⟨-, t, -, hlinter⟩ := setup_ok_iff.mp h
  rw [hlinter]
  exact Registry.enables_tuned host _ t key

private theorem RuleKey.eq_of_name {key other : RuleKey} (h : key.name = other.name) : key = other := by
  obtain ⟨c, hc⟩ := Checker.exists_mem_keys key
  obtain ⟨d, hd⟩ := Checker.exists_mem_keys other
  exact (Checker.eq_of_isCalled c.mem_all d.mem_all hc hd (Or.inl rfl) (Or.inl h)).2

def RuleKey.anyRule (_ : RuleKey) : Bool := true

theorem Selection.picks_everything : Selection.everything.picks = RuleKey.anyRule := by
  funext key
  have h : ¬ key.rule.severity < Severity.info := Nat.not_lt_zero _
  simp [picks, admits, rejects, everything, isNamed, RuleKey.anyRule, h]

private theorem mapM_comp_map {ε α β γ : Type} (f : α → Except ε β) (g : β → γ) (xs : List α) :
    (xs.mapM fun x => (f x).map g) = (xs.mapM f).map (List.map g) := by
  induction xs with
  | nil => rfl
  | cons x xs ih =>
    simp only [List.mapM_cons, ih]
    cases f x with
    | error e => rfl
    | ok y =>
      cases xs.mapM f with
      | error e => rfl
      | ok ys => rfl

private theorem filterMap_map_filter {α : Type} (p : α → Bool) (xs : List (Option α)) :
    (xs.map (Option.filter p)).filterMap id = (xs.filterMap id).filter p := by
  rw [List.filterMap_map, List.filter_filterMap]
  rfl

def CheckerEntry.issueOf? (c : CheckerEntry Checker) (source : String) (off : Disablers) (f : Finding) :
    Option Issue :=
  ((c.issueOf source f).toOption.join).filter fun i =>
    !off.covers (i.line :: i.extraLines) i.ruleId i.name

theorem CheckerEntry.issueOf_of_issueOf? {c : CheckerEntry Checker} {source : String} {off : Disablers}
    {f : Finding} {i : Issue} (h : c.issueOf? source off f = some i) :
    c.issueOf source f = .ok (some i) := by
  obtain ⟨hjoin, -⟩ := Option.filter_eq_some_iff.mp h
  cases hi : c.issueOf source f with
  | error e => simp [hi, Except.toOption] at hjoin
  | ok o => simpa [hi, Except.toOption] using hjoin

theorem CheckerEntry.issuesOf_eq {c : CheckerEntry Checker} {source : String} {off : Disablers}
    {findings : List Finding} {issues : List Issue} (h : c.issuesOf source off findings = .ok issues) :
    issues = findings.filterMap (c.issueOf? source off) := by
  induction findings generalizing issues with
  | nil => exact (Except.ok.inj h).symm
  | cons f findings ih =>
    rw [issuesOf, List.mapM_cons] at h
    obtain ⟨made, hmade, h⟩ := exists_of_bind_eq_ok h
    obtain ⟨i, hf, hmade⟩ := exists_of_bind_eq_ok hmade
    obtain ⟨more, hmore, hmade⟩ := exists_of_bind_eq_ok hmade
    have hrest : c.issuesOf source off findings = .ok ((more.filterMap id).filter fun i =>
        !off.covers (i.line :: i.extraLines) i.ruleId i.name) := by
      rw [issuesOf, hmore]
      rfl
    have hfirst : c.issueOf? source off f =
        i.filter fun i => !off.covers (i.line :: i.extraLines) i.ruleId i.name := by
      rw [issueOf?, hf]
      cases i <;> rfl
    simp only [← Except.ok.inj h, ← Except.ok.inj hmade, List.filterMap_cons, hfirst, ← ih hrest]
    cases i with
    | none => rfl
    | some i =>
      simp only [id, List.filter_cons, Option.filter_some]
      cases !off.covers (i.line :: i.extraLines) i.ruleId i.name <;> rfl

/-- An issue of a finding has the marks of the rule, which is on, and lies where the finding does. -/
theorem CheckerEntry.exists_rule_of_issueOf {c : CheckerEntry Checker} {source : String} {f : Finding}
    {i : Issue} (h : c.issueOf source f = .ok (some i)) :
    ∃ rule desc, c.ruleNamed? f.rule.name = some rule ∧ rule.enabled = true ∧
      i = ⟨rule.id, rule.name, rule.severity, f.line, f.col, f.line, f.col, desc, source, f.extraLines⟩ := by
  rw [issueOf, issue] at h
  split at h
  · cases h
  · next rule hrule =>
    split at h
    · cases h
    · next made hmade =>
      obtain ⟨desc, -, hdesc⟩ := exists_of_bind_eq_ok hmade
      cases hdesc
      split at h
      · next hon => exact ⟨rule, desc, hrule, hon, (Option.some.inj (Except.ok.inj h)).symm⟩
      · cases h

namespace Checker

variable (host : Host) (on : RuleKey → Bool) (t : Tuning) (c : Checker)

/-- The issue of a finding is one of its rule, which is a rule of the checker and on. -/
theorem issueOf_eq_some {source : String} {f : Finding} {i : Issue}
    (h : (c.tuned host on t).issueOf source f = .ok (some i)) :
    f.rule ∈ c.keys ∧ on f.rule = true ∧ i.ruleId = f.rule.id ∧ i.name = f.rule.name ∧
      i.severity = t.severity f.rule := by
  obtain ⟨rule, desc, hrule, hon, rfl⟩ := CheckerEntry.exists_rule_of_issueOf h
  rw [Registry.ruleNamed?_tuned] at hrule
  obtain ⟨key, hfind, rfl⟩ := Option.map_eq_some_iff.mp hrule
  obtain rfl : key = f.rule := RuleKey.eq_of_name (by simpa using List.find?_some hfind)
  exact ⟨List.mem_of_find?_eq_some hfind, hon, rfl, rfl, rfl⟩

theorem issueOf_filter (source : String) (f : Finding) :
    (c.tuned host on t).issueOf source f =
      ((c.tuned host RuleKey.anyRule t).issueOf source f).map
        (Option.filter fun i => (Registry.tuned host on t).enables i.ruleId) := by
  simp only [CheckerEntry.issueOf, CheckerEntry.issue, Registry.ruleNamed?_tuned]
  cases hfind : c.keys.find? (·.name = f.rule.name) with
  | none => rfl
  | some key =>
    have hkey := Registry.enables_tuned host on t key
    simp only [Option.map_some, Rule.issue]
    rw [show (key.tuned on t).desc = (key.tuned RuleKey.anyRule t).desc from rfl]
    cases Text.fill (key.tuned RuleKey.anyRule t).desc f.args with
    | error e => rfl
    | ok desc =>
      simp only [bind, Except.bind, pure, Except.pure, Except.map, RuleKey.tuned, RuleKey.anyRule,
        if_true, Option.filter_some]
      simp only [RuleKey.rule, hkey]
      rfl

theorem issuesOf_filter (source : String) (off : Disablers) (findings : List Finding) :
    (c.tuned host on t).issuesOf source off findings =
      ((c.tuned host RuleKey.anyRule t).issuesOf source off findings).map
        (List.filter fun i => (Registry.tuned host on t).enables i.ruleId) := by
  simp only [CheckerEntry.issuesOf]
  rw [show (c.tuned host on t).issueOf source = _ from funext (issueOf_filter host on t c source),
    mapM_comp_map]
  cases findings.mapM ((c.tuned host RuleKey.anyRule t).issueOf source) with
  | error e => rfl
  | ok issues =>
    simp only [Except.map, bind, Except.bind, pure, Except.pure, Except.ok.injEq]
    rw [filterMap_map_filter, List.filter_filter, List.filter_filter]
    simp only [Bool.and_comm]

theorem mem_issuesOf {source : String} {off : Disablers} {findings : List Finding}
    {issues : List Issue} {i : Issue}
    (h : (c.tuned host on t).issuesOf source off findings = .ok issues) (hi : i ∈ issues) :
    ∃ key ∈ c.keys, on key = true ∧ i.ruleId = key.id ∧ i.name = key.name ∧
      i.severity = t.severity key := by
  rw [CheckerEntry.issuesOf_eq h] at hi
  obtain ⟨f, -, hf⟩ := List.mem_filterMap.mp hi
  exact ⟨f.rule, issueOf_eq_some host on t c (CheckerEntry.issueOf_of_issueOf? hf)⟩

end Checker

namespace Linter

/-- An issue that a run of checkers leaves is one of some finding, and no comment switches it off. -/
theorem exists_issueOf_of_mem_runAll {job : Job} {w : Wake} {cs : List (CheckerEntry Checker)}
    {issues : List Issue} {i : Issue}
    (h : (runAll job w cs).1 = .ok issues) (hi : i ∈ issues) :
    ∃ c ∈ cs, ∃ f, c.issueOf job.fileName f = .ok (some i) ∧
      job.off.covers (i.line :: i.extraLines) i.ruleId i.name = false := by
  induction cs generalizing w issues with
  | nil =>
    cases h
    cases hi
  | cons c cs ih =>
    obtain ⟨here, more, hhere, hmore, rfl⟩ := runAll_cons_eq_ok_iff.mp (Prod.ext h rfl)
    rcases List.mem_append.mp hi with hi | hi
    · obtain ⟨findings, -, hissues⟩ := outcome_ok (outcome_of_mem_shareOf hhere hi)
      rw [CheckerEntry.issuesOf_eq hissues] at hi
      obtain ⟨f, -, hf⟩ := List.mem_filterMap.mp hi
      have hkept := (Option.filter_eq_some_iff.mp hf).2
      exact ⟨c, List.mem_cons_self, f, CheckerEntry.issueOf_of_issueOf? hf, by simpa using hkept⟩
    · obtain ⟨d, hd, hissue⟩ := ih (congrArg Prod.fst hmore) hi
      exact ⟨d, List.mem_cons_of_mem c hd, hissue⟩

theorem exists_issueOf_of_mem_check {l : Linter} {s : Subject} {issues : List Issue} {i : Issue}
    (h : (l.check s).1 = .ok issues) (hi : i ∈ issues) :
    ∃ c ∈ l.registry.active, ∃ f, c.issueOf s.fileName f = .ok (some i) := by
  unfold check at h
  dsimp only at h
  split at h
  · cases h
    cases hi
  · obtain ⟨c, hc, f, hissue, -⟩ := exists_issueOf_of_mem_runAll h hi
    exact ⟨c, hc, f, hissue⟩

variable (host : Host) (on : RuleKey → Bool) (t : Tuning) (job : Job) (w : Wake)

theorem outcome_filter (c : Checker) :
    outcome job w (c.tuned host on t) =
      (outcome job w (c.tuned host RuleKey.anyRule t)).map
        (List.filter fun i => (Registry.tuned host on t).enables i.ruleId) := by
  have hrun : (c.tuned host on t).tag.run job (c.tuned host on t).values =
      (c.tuned host RuleKey.anyRule t).tag.run job (c.tuned host RuleKey.anyRule t).values := rfl
  simp only [outcome, hrun]
  split
  · rfl
  · exact c.issuesOf_filter host on t job.fileName job.off _

variable {host on t job w}

/-- The issues of a checker are of its rules that are on. -/
theorem mem_shareOf {c : Checker} {issues : List Issue} {i : Issue}
    (h : shareOf job w (c.tuned host on t) = .ok issues)
    (hi : i ∈ issues) :
    ∃ key ∈ c.keys, on key = true ∧ i.ruleId = key.id ∧ i.name = key.name ∧
      i.severity = t.severity key := by
  obtain ⟨findings, -, hissues⟩ := outcome_ok (outcome_of_mem_shareOf h hi)
  exact Checker.mem_issuesOf host on t c hissues hi

private theorem disabled_mono {c : Checker} (h : (c.tuned host RuleKey.anyRule t).disabled = true) :
    (c.tuned host on t).disabled = true := by
  simp only [Checker.tuned, Bool.or_eq_true, Bool.not_eq_true', List.any_eq_false] at h ⊢
  refine h.imp_right fun hkeys key hkey => ?_
  exact absurd rfl (hkeys key hkey)

/-- A checker with some rules off reports what it reports with all on, without the former. -/
theorem shareOf_filter {c : Checker} {issues : List Issue}
    (h : shareOf job w (c.tuned host RuleKey.anyRule t) = .ok issues) :
    shareOf job w (c.tuned host on t) =
      .ok (issues.filter fun i => (Registry.tuned host on t).enables i.ruleId) := by
  by_cases hany : (c.tuned host RuleKey.anyRule t).disabled = true
  · rw [shareOf, if_pos hany] at h
    rw [shareOf, if_pos (disabled_mono hany), ← Except.ok.inj h, List.filter_nil]
  · by_cases hon : (c.tuned host on t).disabled = true
    · -- left out only because all its rules are off
      have hkeys : c.keys.any on = false := by
        simp only [Checker.tuned, Bool.or_eq_true, Bool.not_eq_true'] at hany hon
        exact hon.resolve_left fun hsuits => hany (Or.inl hsuits)
      rw [shareOf, if_pos hon, List.filter_eq_nil_iff.mpr]
      intro i hi
      obtain ⟨key, hkey, -, hid, -⟩ := mem_shareOf h hi
      rw [hid, Registry.enables_tuned]
      exact List.any_eq_false.mp hkeys key hkey
    · rw [shareOf, if_neg hany] at h
      rw [shareOf, if_neg hon, outcome_filter, h]
      rfl

theorem outcomes_filter {ws : Checker → Wake} (cs : List Checker) {issues : List Issue}
    (h : outcomes job ws (cs.map (·.tuned host RuleKey.anyRule t)) = .ok issues) :
    outcomes job ws (cs.map (·.tuned host on t)) =
      .ok (issues.filter fun i => (Registry.tuned host on t).enables i.ruleId) := by
  induction cs generalizing issues with
  | nil =>
    cases h
    rfl
  | cons c cs ih =>
    obtain ⟨here, more, hhere, hmore, rfl⟩ := outcomes_cons_eq_ok_iff.mp h
    exact outcomes_cons_eq_ok_iff.mpr
      ⟨_, _, shareOf_filter hhere, ih hmore, (List.filter_append ..).symm⟩

variable (host on t)

/-- What a checker reads when it is its turn in the check of a document. -/
def view (memory : Memory) (s : Subject) : Checker → Wake :=
  seen (s.job host) ⟨s.document, memory⟩ (host.checkers.map (·.tuned host on .start))

theorem view_eq (memory : Memory) (s : Subject) : view host on memory s =
    seen (s.job host) ⟨s.document, memory⟩ (host.checkers.map (·.tuned host on t)) := by
  funext c
  simp only [view, seen, cleansBefore, List.takeWhile_map, List.any_map]
  rfl

theorem cleaned_view (memory : Memory) (s : Subject) (c : Checker) :
    (view host on memory s c).document.map Statement.cleaned = s.document.map Statement.cleaned :=
  cleaned_seen ..

theorem check_tuned (memory : Memory) (s : Subject) :
    (check ⟨host, .tuned host on t, memory⟩ s).1 =
      if s.content.disablers.wholeFile then .ok []
      else outcomes (s.job host) (view host on memory s) (host.checkers.map (·.tuned host on t)) := by
  have hnodup : ((host.checkers.map (·.tuned host on t)).map (·.tag)).Nodup := by
    rw [Registry.tags_tuned]
    exact host.checkers_nodup
  rw [view_eq host on t, ← runAll_eq_outcomes _ _ _ hnodup, ← Registry.active_tuned]
  unfold check
  dsimp only
  cases hfile : s.content.disablers.wholeFile <;> simp [Subject.job, hfile]

/-- Either a [Documentation] is plain, or tag names are checked after all that read one. -/
def ReadsPlain (host : Host) (d : Document) : Prop := PlainDocs d.visited ∨ AreTagsLast host.checkers

theorem check_of_readsPlain (memory : Memory) {s : Subject} (h : ReadsPlain host s.document) :
    (check ⟨host, .tuned host on t, memory⟩ s).1 =
      if s.content.disablers.wholeFile then .ok []
      else outcomes (s.job host) (fun _ => ⟨s.document, memory⟩)
        (host.checkers.map (·.tuned host on t)) := by
  have hviews : outcomes (s.job host) (view host on memory s) (host.checkers.map (·.tuned host on t)) =
      outcomes (s.job host) (fun _ => ⟨s.document, memory⟩) (host.checkers.map (·.tuned host on t)) := by
    apply outcomes_congr
    intro c hc
    rw [view_eq host on t]
    exact shareOf_seen (s.job host) (by rwa [Registry.tags_tuned]) hc
  rw [check_tuned, hviews]

theorem check_filter {memory : Memory} {s : Subject} (hdocs : ReadsPlain host s.document)
    {issues : List Issue}
    (h : (check ⟨host, .tuned host RuleKey.anyRule t, memory⟩ s).1 = .ok issues) :
    (check ⟨host, .tuned host on t, memory⟩ s).1 =
      .ok (issues.filter fun i => (Registry.tuned host on t).enables i.ruleId) := by
  rw [check_of_readsPlain _ _ _ _ hdocs] at h ⊢
  split at h
  · next hfile =>
    rw [if_pos hfile]
    simp only [Except.ok.injEq] at h
    simp [← h]
  · next hfile =>
    rw [if_neg hfile]
    exact outcomes_filter _ h

end Linter

namespace Options

/-- In whatever order the checkers come, accepted options report what the same options report without
`--include`, `--exclude` and `--threshold`, less the issues of the rules that are off: nothing else is added,
lost or changed. Where tag names are checked before others that read a [Documentation], it has to be plain. -/
theorem check_selected (o : Options) {host : Host} {notes : List String} {s : Setup}
    (h : o.setup host = (notes, .ok s)) :
    ∃ all : Setup, { o with selection := .everything }.setup host = ([], .ok all) ∧
      (∀ key : RuleKey, s.linter.registry.enables key.id = o.selection.admits key.rule) ∧
      ∀ (memory : Memory) (subject : Subject) (issues : List Issue),
        Linter.ReadsPlain host subject.document →
        ({ all.linter with memory := memory }.check subject).1 = .ok issues →
          ({ s.linter with memory := memory }.check subject).1 =
            .ok (issues.filter fun i => s.linter.registry.enables i.ruleId) := by
  obtain ⟨-, t, hsettings, hlinter⟩ := setup_ok_iff.mp h
  refine ⟨⟨⟨host, .tuned host RuleKey.anyRule t, .blank⟩, s.reports⟩, ?_, ?_, ?_⟩
  · rw [setup_ok_iff]
    refine ⟨⟨.everything, Selection.validate_everything ..⟩, t, hsettings, ?_⟩
    simp only [Selection.picks_everything]
  · exact enables_eq_picks h
  · intro memory subject issues hdocs hall
    rw [hlinter]
    exact Linter.check_filter host _ t hdocs hall

def withoutDocs : Options :=
  { standard with selection := { Selection.everything with excludedGlobs := [.parse "*doc*".toList] } }

theorem check_selected_withoutDocs :
    ∃ s all : Setup, ∃ issues : List Issue, withoutDocs.setup .plain = ([], .ok s) ∧
      { withoutDocs with selection := .everything }.setup .plain = ([], .ok all) ∧
      (all.linter.check ⟨"a.robot", .text "x \n".toList, ⟨none, []⟩⟩).1 = .ok issues ∧
      issues.map (·.ruleId) = ["0704", "0203", "1001"] ∧
      (s.linter.check ⟨"a.robot", .text "x \n".toList, ⟨none, []⟩⟩).1 =
        .ok (issues.filter fun i => s.linter.registry.enables i.ruleId) ∧
      s.linter.registry.enables "0203" = false ∧ s.linter.registry.enables "1001" = true := by
  have hsetup : withoutDocs.setup .plain =
      ([], .ok ⟨⟨.plain, .tuned .plain withoutDocs.selection.picks .start, .blank⟩,
        .ofNames ["return_status"]⟩) := by
    rw [setup_ok_iff]
    exact ⟨⟨withoutDocs.selection, rfl⟩, .start, rfl, rfl⟩
  obtain ⟨all, hall, henables, hfilter⟩ := check_selected withoutDocs hsetup
  obtain ⟨-, t, hsettings, hlinter⟩ := setup_ok_iff.mp hall
  obtain rfl : Tuning.start = t := congrArg Prod.fst (Except.ok.inj hsettings)
  rw [Selection.picks_everything] at hlinter
  have hdocs : Linter.ReadsPlain .plain ⟨none, []⟩ := Or.inr (by decide)
  have hissues : ∃ issues,
      (all.linter.check ⟨"a.robot", .text "x \n".toList, ⟨none, []⟩⟩).1 = .ok issues ∧
        issues.map (·.ruleId) = ["0704", "0203", "1001"] := by
    rw [hlinter, Linter.check_of_readsPlain _ _ _ _ hdocs]
    exact ⟨_, rfl, rfl⟩
  obtain ⟨issues, hcheck, hids⟩ := hissues
  have hblank : all.linter.memory = .blank := by rw [hlinter]
  exact ⟨_, all, issues, hsetup, hall, hcheck, hids, hfilter .blank _ issues hdocs (hblank ▸ hcheck),
    (henables .missingDocSuite).trans rfl, (henables .trailingWhitespace).trans rfl⟩

end Options

end SuiteLint
