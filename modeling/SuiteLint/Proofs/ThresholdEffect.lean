import SuiteLint.Proofs.SelectionFilter

/-!
# What a threshold is compared with

The `--threshold` is compared with the severity that a rule has at first, while issues carry the one that the
last setting of `severity` gives it. The two agree exactly if no setting moves a rule across the threshold.
-/

namespace SuiteLint

private theorem Severity.not_lt {a b : Severity} : ¬ a < b ↔ b ≤ a := Nat.not_lt

def Selection.allows (s : Selection) (r : Rule) : Bool :=
  !isNamed r s.excluded s.excludedGlobs &&
    ((s.included.isEmpty && s.includedGlobs.isEmpty) || isNamed r s.included s.includedGlobs)

theorem Selection.admits_iff (s : Selection) (r : Rule) :
    s.admits r = true ↔ s.threshold ≤ r.severity ∧ s.allows r = true := by
  simp only [admits, rejects, allows, Bool.not_or, Bool.and_eq_true, Bool.not_eq_true',
    decide_eq_false_iff_not, Severity.not_lt, and_assoc]

instance (key : RuleKey) (name : String) : Decidable (key.IsCalled name) :=
  inferInstanceAs (Decidable (_ ∨ _))

def RuleKey.gradeIn? (key : RuleKey) (setting : String) : Option Severity :=
  match Registry.splitSetting setting with
  | some (target, param, value) =>
    if key.IsCalled target ∧ param = "severity" then Severity.ofSetting? value else none
  | none => none

def RuleKey.gradeAfter (key : RuleKey) (settings : List String) : Severity :=
  ((settings.filterMap key.gradeIn?).getLast?).getD key.severity

theorem Checker.owner?_eq_of_isCalled {key : RuleKey} {name : String} (h : key.IsCalled name) :
    ∃ c : Checker, owner? name = some (c, key) := by
  obtain ⟨c, hc⟩ := exists_mem_keys key
  exact ⟨c, owner?_eq_some_iff.mpr ⟨c.mem_all, hc, h⟩⟩

theorem RuleKey.eq_of_id {key other : RuleKey} (h : key.id = other.id) : key = other := by
  obtain ⟨c, hc⟩ := Checker.exists_mem_keys key
  obtain ⟨d, hd⟩ := Checker.exists_mem_keys other
  exact (Checker.eq_of_isCalled c.mem_all d.mem_all hc hd (Or.inr rfl) (Or.inr h)).2

namespace Tuning

theorem severity_tune {t t' : Tuning} {name param value : String} {c : Checker} {key : RuleKey}
    (h : t.tune name param value c key = .ok t') (other : RuleKey) :
    t'.severity other =
      if other = key ∧ param = "severity" then (Severity.ofSetting? value).getD (t.severity other)
      else t.severity other := by
  obtain ⟨hparam, s, hs, rfl⟩ | ⟨hparam, p, v, -, -, rfl⟩ := tune_eq_ok_iff.mp h
  · simp [grade, hparam, hs]
  · simp [assign, hparam]

theorem severity_configure {t t' : Tuning} {host : Host} {reports reports' : Reports}
    {setting : String} (h : t.configure host reports setting = .ok (t', reports')) (key : RuleKey) :
    t'.severity key = (key.gradeIn? setting).getD (t.severity key) := by
  obtain ⟨target, param, value, hsplit, ⟨c, named, howner, htune, -⟩ | ⟨howner, rfl, -⟩⟩ :=
    configure_eq_ok_iff.mp h
  all_goals simp only [RuleKey.gradeIn?, hsplit]
  · have hcalled : key.IsCalled target ↔ key = named := by
      constructor
      · intro hcalled
        obtain ⟨d, hd⟩ := Checker.owner?_eq_of_isCalled hcalled
        rw [hd] at howner
        exact congrArg Prod.snd (Option.some.inj howner)
      · rintro rfl
        exact (Checker.owner?_eq_some_iff.mp howner).2.2
    rw [severity_tune htune key]
    simp only [hcalled]
    split <;> rfl
  · have hcalled : ¬ key.IsCalled target := by
      intro hcalled
      obtain ⟨d, hd⟩ := Checker.owner?_eq_of_isCalled hcalled
      rw [hd] at howner
      cases howner
    rw [if_neg fun hboth => hcalled hboth.1, Option.getD_none]

/-- After settings a rule has the severity that the last of them gives it. -/
theorem severity_configureAll {t t' : Tuning} {host : Host} {reports reports' : Reports}
    {settings : List String} (h : t.configureAll host reports settings = .ok (t', reports')) (key : RuleKey) :
    t'.severity key = ((settings.filterMap key.gradeIn?).getLast?).getD (t.severity key) := by
  induction settings generalizing t reports with
  | nil =>
    simp only [configureAll, Except.ok.injEq, Prod.mk.injEq] at h
    simp [h.1]
  | cons setting settings ih =>
    obtain ⟨t₁, reports₁, hstep, h⟩ := configureAll_cons_eq_ok_iff.mp h
    rw [ih h, severity_configure hstep key]
    cases hgrade : key.gradeIn? setting with
    | none => simp [hgrade]
    | some s => simp [hgrade, List.getLast?_cons]

end Tuning

theorem Linter.mem_check (host : Host) (on : RuleKey → Bool) (t : Tuning) {memory : Memory} {s : Subject}
    {issues : List Issue} {i : Issue} (h : (check ⟨host, .tuned host on t, memory⟩ s).1 = .ok issues)
    (hi : i ∈ issues) :
    ∃ key : RuleKey, on key = true ∧ i.ruleId = key.id ∧ i.name = key.name ∧
      i.severity = t.severity key := by
  obtain ⟨entry, hentry, f, hissue⟩ := exists_issueOf_of_mem_check h hi
  rw [Registry.active_tuned] at hentry
  obtain ⟨c, -, rfl⟩ := List.mem_map.mp hentry
  exact ⟨f.rule, (Checker.issueOf_eq_some host on t c hissue).2⟩

namespace Options

/-- A rule is on if the severity that it has before any setting reaches the threshold and its name is
allowed. -/
theorem enables_iff (o : Options) {host : Host} {notes : List String} {s : Setup}
    (h : o.setup host = (notes, .ok s)) (key : RuleKey) :
    s.linter.registry.enables key.id = true ↔
      o.selection.threshold ≤ key.severity ∧ o.selection.allows key.rule = true := by
  rw [enables_eq_picks h]
  exact o.selection.admits_iff key.rule

theorem severity_of_mem_check (o : Options) {host : Host} {notes : List String} {s : Setup}
    (h : o.setup host = (notes, .ok s)) {memory : Memory} {subject : Subject} {issues : List Issue}
    {i : Issue} (hcheck : ({ s.linter with memory := memory }.check subject).1 = .ok issues)
    (hi : i ∈ issues) :
    ∃ key : RuleKey, s.linter.registry.enables key.id = true ∧ i.ruleId = key.id ∧
      i.severity = key.gradeAfter o.settings := by
  obtain ⟨-, t, hsettings, hlinter⟩ := setup_ok_iff.mp h
  rw [hlinter] at hcheck
  obtain ⟨key, hpick, hid, -, hseverity⟩ := Linter.mem_check host _ t hcheck hi
  refine ⟨key, (enables_iff o h key).mpr ((o.selection.admits_iff key.rule).mp hpick), hid, ?_⟩
  rw [hseverity, Tuning.severity_configureAll hsettings key]
  rfl

/-- If `--configure` moves the severity of no allowed rule across `--threshold`, every issue reaches the
threshold, and every allowed rule that reaches it is on. Any rule that is moved is either off although it
reaches the threshold, or on with issues that all lie below it. -/
theorem threshold_honoured_unless_moved (o : Options) {host : Host} {notes : List String} {s : Setup}
    (h : o.setup host = (notes, .ok s)) :
    ((∀ key : RuleKey, o.selection.allows key.rule = true →
        (o.selection.threshold ≤ key.gradeAfter o.settings ↔ o.selection.threshold ≤ key.severity)) →
      (∀ (memory : Memory) (subject : Subject) (issues : List Issue),
        ({ s.linter with memory := memory }.check subject).1 = .ok issues →
          ∀ i ∈ issues, o.selection.threshold ≤ i.severity) ∧
      ∀ key : RuleKey, o.selection.threshold ≤ key.gradeAfter o.settings →
        o.selection.allows key.rule = true → s.linter.registry.enables key.id = true) ∧
    ∀ key : RuleKey, o.selection.allows key.rule = true →
      ¬ (o.selection.threshold ≤ key.gradeAfter o.settings ↔ o.selection.threshold ≤ key.severity) →
        (s.linter.registry.enables key.id = false ∧
          o.selection.threshold ≤ key.gradeAfter o.settings) ∨
        (s.linter.registry.enables key.id = true ∧
          ∀ (memory : Memory) (subject : Subject) (issues : List Issue),
            ({ s.linter with memory := memory }.check subject).1 = .ok issues →
              ∀ i ∈ issues, i.ruleId = key.id → ¬ o.selection.threshold ≤ i.severity) := by
  refine ⟨fun hkept => ⟨?_, ?_⟩, ?_⟩
  · intro memory subject issues hcheck i hi
    obtain ⟨key, hon, -, hseverity⟩ := severity_of_mem_check o h hcheck hi
    obtain ⟨hfirst, hallowed⟩ := (enables_iff o h key).mp hon
    rw [hseverity]
    exact (hkept key hallowed).mpr hfirst
  · intro key hgrade hallowed
    exact (enables_iff o h key).mpr ⟨(hkept key hallowed).mp hgrade, hallowed⟩
  · intro key hallowed hmoved
    by_cases hfirst : o.selection.threshold ≤ key.severity
    · right
      refine ⟨(enables_iff o h key).mpr ⟨hfirst, hallowed⟩, ?_⟩
      intro memory subject issues hcheck i hi hid
      obtain ⟨other, -, hother, hseverity⟩ := severity_of_mem_check o h hcheck hi
      have hsame : key = other := RuleKey.eq_of_id (hid.symm.trans hother)
      rw [hseverity, ← hsame]
      exact fun hgrade => hmoved ⟨fun _ => hfirst, fun _ => hgrade⟩
    · left
      constructor
      · rw [Bool.eq_false_iff]
        exact fun hon => hfirst ((enables_iff o h key).mp hon).1
      · apply Decidable.byContradiction
        intro hgrade
        exact hmoved ⟨fun h' => absurd h' hgrade, fun h' => absurd h' hfirst⟩

def withGrade (threshold : Severity) (setting : String) : Options :=
  { standard with
    selection := { Selection.everything with threshold := threshold }
    settings := ["missing-doc-suite:severity:" ++ setting] }

theorem threshold_honoured_unless_moved_withGrade :
    ∃ s raised : Setup, (withGrade .warning "e").setup .plain = ([], .ok s) ∧
      (withGrade .error "e").setup .plain = ([], .ok raised) ∧
      (∀ (memory : Memory) (subject : Subject) (issues : List Issue),
        ({ s.linter with memory := memory }.check subject).1 = .ok issues →
          ∀ i ∈ issues, Severity.warning ≤ i.severity) ∧
      raised.linter.registry.enables RuleKey.missingDocSuite.id = false := by
  have hsetup (threshold : Severity) : (withGrade threshold "e").setup .plain =
      ([], .ok ⟨⟨.plain, .tuned .plain (withGrade threshold "e").selection.picks
        (Tuning.start.grade .missingDocSuite .error), .blank⟩, .ofNames ["return_status"]⟩) := by
    rw [setup_ok_iff]
    exact ⟨⟨(withGrade threshold "e").selection, rfl⟩, _, rfl, rfl⟩
  refine ⟨_, _, hsetup .warning, hsetup .error, ?_, ?_⟩
  · refine ((threshold_honoured_unless_moved _ (hsetup .warning)).1 ?_).1
    intro key _
    have hsettings : Tuning.start.configureAll .plain (.ofNames ["return_status"])
        (withGrade .warning "e").settings =
          .ok (Tuning.start.grade .missingDocSuite .error, .ofNames ["return_status"]) := rfl
    have hgrade : (Tuning.start.grade .missingDocSuite .error).severity key =
        key.gradeAfter (withGrade .warning "e").settings :=
      Tuning.severity_configureAll hsettings key
    rw [← hgrade]
    by_cases hkey : key = .missingDocSuite
    · subst hkey
      decide
    · simp only [Tuning.grade, if_neg hkey]
      exact Iff.rfl
  · have hmoved := (threshold_honoured_unless_moved _ (hsetup .error)).2 .missingDocSuite rfl
      (by decide)
    refine (hmoved.resolve_right fun hon => ?_).1
    exact absurd ((enables_iff _ (hsetup .error) _).mp hon.1).1 (by decide)

/-- A rule that a setting has made milder than the threshold is still reported. -/
theorem milder_than_threshold_reported :
    ∃ (s : Setup) (issues : List Issue), (withGrade .warning "i").setup .plain = ([], .ok s) ∧
      (s.linter.check ⟨"a.robot", .text [], ⟨none, []⟩⟩).1 = .ok issues ∧
      ∃ i ∈ issues, ¬ (withGrade .warning "i").selection.threshold ≤ i.severity := by
  refine ⟨⟨⟨.plain, .tuned .plain (withGrade .warning "i").selection.picks
    (Tuning.start.grade .missingDocSuite .info), .blank⟩, .ofNames ["return_status"]⟩,
    [⟨"0203", "missing-doc-suite", .info, 1, 1, 1, 1, "Missing documentation in suite", "a.robot", []⟩],
    ?_, ?_, ?_⟩
  · rw [setup_ok_iff]
    exact ⟨⟨(withGrade .warning "i").selection, rfl⟩, _, rfl, rfl⟩
  · rw [Linter.check_tuned]
    rfl
  · exact ⟨_, List.mem_singleton.mpr rfl, by decide⟩

end Options

end SuiteLint
