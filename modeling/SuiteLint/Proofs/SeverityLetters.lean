import SuiteLint.Proofs.SettingLocality
import SuiteLint.Proofs.TextParts

/-!
# Letters of severities before the ids of rules

The letter of a severity before the id of a rule is dropped from settings with exactly two colons, while
settings are cut at their first two colons. So the letter makes no difference exactly if there is no
further colon.
-/

namespace SuiteLint

/-- The number of a rule, as ids are: at least four digits. -/
structure IsRuleNumber (id : String) : Prop where
  digits : ∀ c ∈ id.toList, c.isDigit = true
  long : 4 ≤ id.toList.length

def Options.writtenSetting (target param value : String) : String :=
  target ++ ":" ++ param ++ ":" ++ value

@[simp] theorem Options.toList_writtenSetting (target param value : String) :
    (writtenSetting target param value).toList =
      target.toList ++ ':' :: (param.toList ++ ':' :: value.toList) := by
  simp [writtenSetting]

theorem Severity.toList_letter (s : Severity) :
    ∃ c, s.letter.toList = [c] ∧ Selection.isSeverityLetter c = true ∧ c ≠ ':' := by
  cases s
  · exact ⟨'I', rfl, rfl, by decide⟩
  · exact ⟨'W', rfl, rfl, by decide⟩
  · exact ⟨'E', rfl, rfl, by decide⟩

namespace IsRuleNumber

variable {id : String}

theorem not_letter (h : IsRuleNumber id) {c : Char} (hc : c ∈ id.toList) :
    Selection.isSeverityLetter c = false := by
  have hdigit := h.digits c hc
  cases hletter : Selection.isSeverityLetter c with
  | false => rfl
  | true =>
    simp only [Selection.isSeverityLetter, Bool.or_eq_true, beq_iff_eq] at hletter
    rcases hletter with (rfl | rfl) | rfl <;> exact absurd hdigit (by decide)

theorem colon_not_mem (h : IsRuleNumber id) : ':' ∉ id.toList :=
  fun hc => absurd (h.digits ':' hc) (by decide)

theorem colon_not_mem_lettered (h : IsRuleNumber id) (s : Severity) :
    ':' ∉ (s.letter ++ id).toList := by
  obtain ⟨c, hletter, -, hc⟩ := s.toList_letter
  rw [String.toList_append, hletter, List.singleton_append, List.mem_cons, not_or]
  exact ⟨Ne.symm hc, h.colon_not_mem⟩

private theorem withoutSeverity_self (h : IsRuleNumber id) : Selection.withoutSeverity id = id := by
  unfold Selection.withoutSeverity
  split
  · next c rest hid =>
    have hc : Selection.isSeverityLetter c = false := h.not_letter (by rw [hid]; exact List.mem_cons_self)
    rw [hc, Bool.false_and, if_neg Bool.false_ne_true]
  · rfl

theorem withoutSeverity_lettered (h : IsRuleNumber id) (s : Severity) :
    Selection.withoutSeverity (s.letter ++ id) = id := by
  obtain ⟨c, hletter, hc, -⟩ := s.toList_letter
  have hname : (s.letter ++ id).toList = c :: id.toList := by
    rw [String.toList_append, hletter, List.singleton_append]
  have hdigits : id.toList.takeWhile Char.isDigit = id.toList := by
    rw [← List.append_nil id.toList, List.takeWhile_append_of_pos h.digits, List.takeWhile_nil]
  have hkept : id.toList.filter (!Selection.isSeverityLetter ·) = id.toList := by
    rw [List.filter_eq_self]
    intro d hd
    rw [h.not_letter hd]
    rfl
  unfold Selection.withoutSeverity
  simp only [hname, hc, hdigits, h.long, decide_true, Bool.and_self, if_true]
  rw [List.filter_cons_of_neg (by simp [hc]), hkept, String.ofList_toList]

private theorem lettered_ne (s : Severity) : s.letter ++ id ≠ id := by
  intro heq
  have hlength := congrArg (fun name => name.toList.length) heq
  obtain ⟨c, hletter, -⟩ := s.toList_letter
  simp only [String.toList_append, hletter, List.singleton_append, List.length_cons] at hlength
  omega

end IsRuleNumber

/-! ## No rule or report is called so -/

private theorem RuleKey.name_starts_low (key : RuleKey) : key.name.front?.any Char.isLower = true := by
  cases key <;> decide

private theorem ReportKind.name_starts_low (k : ReportKind) : k.name.front?.any Char.isLower = true := by
  cases k <;> decide

theorem Severity.front?_lettered (s : Severity) (id : String) :
    (s.letter ++ id).front?.any Char.isLower = false := by
  rw [String.front?_eq, String.toList_append]
  cases s <;> rfl

namespace IsRuleNumber

variable {id : String}

/-- No rule is called by a letter and a number: names start with small letters, and ids are shorter. -/
theorem owner?_lettered (h : IsRuleNumber id) (s : Severity) :
    Checker.owner? (s.letter ++ id) = none := by
  apply Lookup.eq_none_of_not_mem
  intro hmem
  obtain ⟨⟨name, c, key⟩, hentry, rfl⟩ := List.mem_map.mp hmem
  obtain ⟨-, -, hname | hid⟩ := Checker.mem_directory.mp hentry
  · have hlow := key.name_starts_low
    rw [← hname, s.front?_lettered] at hlow
    exact Bool.false_ne_true hlow
  · have hlength : (s.letter ++ id).toList.length = 4 := by
      rw [show s.letter ++ id = key.id from hid, String.length_toList, key.length_id]
    obtain ⟨c, hletter, -⟩ := s.toList_letter
    rw [String.toList_append, hletter, List.singleton_append, List.length_cons] at hlength
    have := h.long
    omega

end IsRuleNumber

private theorem Reports.find?_lettered (r : Reports) (s : Severity) (id : String) :
    r.find? (s.letter ++ id) = none := by
  rw [find?, List.find?_eq_none]
  intro k _ hname
  have hlow := k.name_starts_low
  rw [show k.name = s.letter ++ id by simpa using hname, s.front?_lettered] at hlow
  exact Bool.false_ne_true hlow

/-! ## Settings with two colons and with more -/

namespace Options

theorem tidySetting_of_count_ne {setting : String} (h : setting.toList.count ':' ≠ 2) :
    tidySetting setting = setting := by
  unfold tidySetting
  split
  · next target param value hsplit =>
    have hlength := Text.length_splitAt ':' setting.toList
    rw [hsplit] at hlength
    simp only [List.length_cons, List.length_nil] at hlength
    omega
  · rfl

theorem tidySetting_writtenSetting {target param value : String} (ht : ':' ∉ target.toList)
    (hp : ':' ∉ param.toList) (hv : ':' ∉ value.toList) :
    tidySetting (writtenSetting target param value) =
      writtenSetting (Selection.withoutSeverity target) param value := by
  have hsplit : Text.splitAt ':' (writtenSetting target param value).toList =
      [target.toList, param.toList, value.toList] := by
    rw [toList_writtenSetting, Text.splitAt_append_cons ht, Text.splitAt_append_cons hp,
      Text.splitAt_of_not_mem hv]
  unfold tidySetting
  rw [hsplit]
  simp only [String.ofList_toList]
  rfl

private theorem count_writtenSetting {target : String} (ht : ':' ∉ target.toList) (param value : String) :
    (writtenSetting target param value).toList.count ':' =
      param.toList.count ':' + value.toList.count ':' + 2 := by
  rw [toList_writtenSetting, List.count_append, List.count_cons_self, List.count_append,
    List.count_cons_self, List.count_eq_zero.mpr ht]
  omega

theorem tidySetting_of_further_colon {target param value : String} (ht : ':' ∉ target.toList)
    (h : ¬ (':' ∉ param.toList ∧ ':' ∉ value.toList)) :
    tidySetting (writtenSetting target param value) = writtenSetting target param value := by
  apply tidySetting_of_count_ne
  rw [count_writtenSetting ht]
  intro hcount
  apply h
  exact ⟨List.count_eq_zero.mp (by omega), List.count_eq_zero.mp (by omega)⟩

theorem splitSetting_writtenSetting {target : String} (ht : ':' ∉ target.toList)
    (param value : String) :
    ∃ param' value', Registry.splitSetting (writtenSetting target param value) =
      some (target, param', value') := by
  have hfirst : Text.cutAt ':' (writtenSetting target param value).toList =
      (target.toList, some (param.toList ++ ':' :: value.toList)) :=
    Text.cutAt_eq_some_iff.mpr ⟨toList_writtenSetting target param value, ht⟩
  have hsecond : (Text.cutAt ':' (param.toList ++ ':' :: value.toList)).2 ≠ none := by
    rw [ne_eq, Text.cutAt_none_iff]
    exact fun hmem => hmem (by simp)
  rcases hcut : Text.cutAt ':' (param.toList ++ ':' :: value.toList) with ⟨before, _ | rest⟩
  · exact absurd (congrArg Prod.snd hcut) hsecond
  · exact ⟨String.ofList before, String.ofList rest, by
      simp only [Registry.splitSetting, hfirst, hcut, String.ofList_toList]⟩

end Options

theorem Registry.configureRule_ne_unknownTarget {κ : Type} (r : Registry κ)
    (name param value : String) (ref : RuleRef) (c : CheckerEntry κ) (rule : Rule)
    (target hint : String) :
    r.configureRule name param value ref c rule ≠ .error (.unknownTarget target hint) := by
  intro h
  unfold configureRule at h
  split at h
  · split at h <;> cases h
  · split at h
    · cases h
    · split at h <;> cases h

private theorem Reports.configure_ne_unknownTarget (r : Reports) (k : ReportKind)
    (param value target hint : String) :
    r.configure k param value ≠ .error (.unknownTarget target hint) := by
  intro h
  unfold configure at h
  split at h <;> cases h

/-- An error on an unknown target names the target of the setting. -/
theorem Registry.target_of_unknownTarget {κ : Type} {r : Registry κ} {reports : Reports}
    {setting name hint : String}
    (h : r.configure reports setting = .error (.unknownTarget name hint)) :
    ∃ param value, splitSetting setting = some (name, param, value) := by
  unfold configure at h
  cases hsplit : splitSetting setting with
  | none => simp [hsplit] at h
  | some parts =>
    obtain ⟨target, param, value⟩ := parts
    simp only [hsplit] at h
    cases hfind : r.find? target with
    | some found =>
      obtain ⟨ref, c, rule⟩ := found
      simp only [hfind] at h
      cases hrule : r.configureRule target param value ref c rule with
      | error e =>
        rw [hrule] at h
        obtain rfl := Except.error.inj h
        exact absurd hrule (r.configureRule_ne_unknownTarget target param value ref c rule name hint)
      | ok changed =>
        rw [hrule] at h
        cases h
    | none =>
      simp only [hfind] at h
      cases hreport : reports.find? target with
      | some k =>
        simp only [hreport] at h
        cases hset : reports.configure k param value with
        | error e =>
          rw [hset] at h
          obtain rfl := Except.error.inj h
          exact absurd hset (reports.configure_ne_unknownTarget k param value name hint)
        | ok changed =>
          rw [hset] at h
          cases h
      | none =>
        simp only [hreport, Except.error.injEq, LintError.unknownTarget.injEq] at h
        exact ⟨param, value, by rw [h.1]⟩

namespace Options

private theorem linter_eq_tuned {o : Options} {host : Host} {linter : Linter}
    (h : (o.linter host).2 = .ok linter) :
    linter = ⟨host, .tuned host o.selection.picks .start, .blank⟩ := by
  rw [Options.linter, Linter.load_tuned, reviewed] at h
  split at h
  · simp at h
  · exact (Except.ok.inj h).symm

private theorem exists_tuned {o : Options} {host : Host} {linter : Linter} {before : List String}
    {registry : Registry Checker} {reports : Reports} (hlinter : (o.linter host).2 = .ok linter)
    (hbefore : linter.registry.configureAll (.ofNames o.reports) before = .ok (registry, reports)) :
    ∃ t, registry = .tuned host o.selection.picks t := by
  rw [linter_eq_tuned hlinter, Registry.configureAll_tuned] at hbefore
  obtain ⟨p, -, hp⟩ := map_eq_ok_iff.mp hbefore
  exact ⟨p.1, (Prod.mk.inj hp).1.symm⟩

theorem configure_lettered {registry : Registry Checker} {host : Host} {on : RuleKey → Bool}
    {t : Tuning} (htuned : registry = .tuned host on t) (reports : Reports) (s : Severity)
    {id : String} (hid : IsRuleNumber id) {param value : String}
    (h : ¬ (':' ∉ param.toList ∧ ':' ∉ value.toList)) :
    registry.configure reports (tidySetting (writtenSetting (s.letter ++ id) param value)) =
      .error (.unknownTarget (s.letter ++ id) (Suggestion.hint (s.letter ++ id) registry.known)) := by
  have hcolon := hid.colon_not_mem_lettered s
  obtain ⟨param', value', hsplit⟩ := splitSetting_writtenSetting hcolon param value
  rw [tidySetting_of_further_colon hcolon h, htuned]
  simp only [Registry.configure, hsplit, Registry.find?_tuned, hid.owner?_lettered,
    Reports.find?_lettered, Option.map_none]

/-- After any accepted settings, `--configure` with the letter of a severity before the id, as in `W0301`, has
the outcome of the one without it exactly if neither the parameter nor the value has a colon. Where one has,
the one with the letter fails for want of a rule or report of this name. -/
theorem letter_immaterial_iff (o : Options) (host : Host) {linter : Linter} {before : List String}
    {registry : Registry Checker} {reports : Reports} (hlinter : (o.linter host).2 = .ok linter)
    (hbefore : linter.registry.configureAll (.ofNames o.reports) before = .ok (registry, reports))
    (s : Severity) {id : String} (hid : IsRuleNumber id) (param value : String) :
    (registry.configure reports (tidySetting (writtenSetting (s.letter ++ id) param value)) =
        registry.configure reports (tidySetting (writtenSetting id param value)) ↔
      ':' ∉ param.toList ∧ ':' ∉ value.toList) ∧
    (¬ (':' ∉ param.toList ∧ ':' ∉ value.toList) →
      registry.configure reports (tidySetting (writtenSetting (s.letter ++ id) param value)) =
        .error (.unknownTarget (s.letter ++ id) (Suggestion.hint (s.letter ++ id) registry.known))) := by
  obtain ⟨t, htuned⟩ := exists_tuned hlinter hbefore
  refine ⟨⟨?_, ?_⟩, configure_lettered htuned reports s hid⟩
  · intro heq
    apply Classical.byContradiction
    intro h
    rw [configure_lettered htuned reports s hid h,
      tidySetting_of_further_colon hid.colon_not_mem h] at heq
    obtain ⟨param', value', hsplit⟩ := Registry.target_of_unknownTarget heq.symm
    obtain ⟨param'', value'', hsplit'⟩ := splitSetting_writtenSetting hid.colon_not_mem param value
    rw [hsplit'] at hsplit
    exact IsRuleNumber.lettered_ne s (congrArg Prod.fst (Option.some.inj hsplit)).symm
  · rintro ⟨hp, hv⟩
    rw [tidySetting_writtenSetting (hid.colon_not_mem_lettered s) hp hv,
      tidySetting_writtenSetting hid.colon_not_mem hp hv, hid.withoutSeverity_lettered,
      hid.withoutSeverity_self]

theorem linter_standard :
    (standard.linter .plain).2 = .ok ⟨.plain, .tuned .plain standard.selection.picks .start, .blank⟩ := by
  rw [Options.linter, Linter.load_tuned, reviewed]
  rfl

theorem isRuleNumber_0301 : IsRuleNumber "0301" := ⟨List.all_eq_true.mp (by decide), by decide⟩

/-- The letter is dropped before a pattern of a semicolon and stays before one of a colon. -/
theorem letter_immaterial_iff_pattern :
    ∃ linter : Linter, (standard.linter .plain).2 = .ok linter ∧
      linter.registry.configureAll (.ofNames standard.reports) [] =
        .ok (linter.registry, .ofNames standard.reports) ∧ IsRuleNumber "0301" ∧
      linter.registry.configure (.ofNames standard.reports)
          (tidySetting (writtenSetting (Severity.warning.letter ++ "0301") "pattern" "[;]")) =
        linter.registry.configure (.ofNames standard.reports)
          (tidySetting (writtenSetting "0301" "pattern" "[;]")) ∧
      linter.registry.configure (.ofNames standard.reports)
          (tidySetting (writtenSetting (Severity.warning.letter ++ "0301") "pattern" "[:]")) ≠
        linter.registry.configure (.ofNames standard.reports)
          (tidySetting (writtenSetting "0301" "pattern" "[:]")) := by
  have hnone : (Registry.tuned .plain standard.selection.picks .start).configureAll
      (.ofNames standard.reports) [] = .ok (_, .ofNames standard.reports) := rfl
  have hiff := letter_immaterial_iff standard .plain linter_standard hnone .warning isRuleNumber_0301
    "pattern"
  refine ⟨_, linter_standard, hnone, isRuleNumber_0301, ?_, ?_⟩
  · exact (hiff "[;]").1.mpr ⟨by decide, by decide⟩
  · intro heq
    exact absurd ((hiff "[:]").1.mp heq).2 (by decide)

/-- A pattern with a colon is accepted for an id, and refused for the id with a letter before it. -/
theorem pattern_with_colon_refused_after_letter :
    ∃ (linter : Linter) (changed : Registry Checker) (hint : String),
      (standard.linter .plain).2 = .ok linter ∧ IsRuleNumber "0301" ∧
      linter.registry.configure (.ofNames standard.reports)
        (tidySetting (writtenSetting "0301" "pattern" "[:]")) =
          .ok (changed, .ofNames standard.reports) ∧
      linter.registry.configure (.ofNames standard.reports)
        (tidySetting (writtenSetting (Severity.warning.letter ++ "0301") "pattern" "[:]")) =
          .error (.unknownTarget (Severity.warning.letter ++ "0301") hint) := by
  have hcolon : ¬ (':' ∉ "pattern".toList ∧ ':' ∉ "[:]".toList) := by decide
  have howner : Checker.owner? "0301" = some (.charactersInNames, .notAllowedCharInName) :=
    Checker.owner?_eq_some_iff.mpr ⟨Checker.mem_all _, by decide, Or.inr rfl⟩
  have hsplit : Registry.splitSetting (writtenSetting "0301" "pattern" "[:]") =
      some ("0301", "pattern", "[:]") := by decide +kernel
  have haccepted : ∃ t, Tuning.start.configure .plain (.ofNames standard.reports)
      (writtenSetting "0301" "pattern" "[:]") = .ok (t, .ofNames standard.reports) := by
    simp only [Tuning.configure, hsplit, howner]
    exact ⟨_, rfl⟩
  obtain ⟨t, ht⟩ := haccepted
  refine ⟨_, .tuned .plain standard.selection.picks t, _, linter_standard, isRuleNumber_0301, ?_,
    configure_lettered rfl _ .warning isRuleNumber_0301 hcolon⟩
  rw [tidySetting_of_further_colon isRuleNumber_0301.colon_not_mem hcolon, Registry.configure_tuned, ht]
  rfl

end Options

end SuiteLint
