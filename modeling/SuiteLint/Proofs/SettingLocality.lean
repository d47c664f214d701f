import SuiteLint.Proofs.ParameterReach
import SuiteLint.Proofs.ThresholdEffect

/-!
# A setting stays with its rule

A setting of a parameter changes a value that is kept under the number of its rule. So what is reported for
the other rules is the same, as far as the checkers keep the parameters of their rules apart.
-/

namespace SuiteLint

/-! ## Where values are kept -/

namespace RuleKey

@[simp] theorem length_id (key : RuleKey) : key.id.length = 4 := by cases key <;> rfl

theorem eq_of_slot {key other : RuleKey} {name name' : String}
    (h : key.slot name = other.slot name') : key = other := by
  have hlists : key.id.toList ++ ("." ++ name).toList = other.id.toList ++ ("." ++ name').toList := by
    rw [← String.toList_append, ← String.toList_append, ← String.append_assoc, ← String.append_assoc]
    exact congrArg String.toList h
  have hlength : key.id.toList.length = other.id.toList.length := by
    rw [String.length_toList, String.length_toList, length_id, length_id]
  exact eq_of_id (String.toList_inj.mp (List.append_inj_left hlists hlength))

private theorem slot_of_mem_params {key : RuleKey} {p : Param} (h : p ∈ key.params) :
    p.slot = key.slot p.name := by
  cases key <;> simp only [params, List.mem_cons, List.not_mem_nil, or_false] at h <;>
    rcases h with rfl | rfl <;> rfl

end RuleKey

namespace Values

theorem get_set (vs : Values) (slot other : String) (value : ParamValue) :
    (vs.set slot value).get other = if other = slot then value else vs.get other := by
  rw [get, set, Lookup.lookup_put fun _ => value]
  split
  · cases vs.lookup slot <;> rfl
  · rfl

namespace AgreeBut

variable {key : RuleKey} {vs ws : Values}

private theorem refl (key : RuleKey) (vs : Values) : AgreeBut key vs vs := fun _ _ _ => rfl

private theorem set (h : AgreeBut key vs ws) (slot : String) (value : ParamValue) :
    AgreeBut key (vs.set slot value) (ws.set slot value) := by
  intro other hother name
  rw [get_set, get_set, h other hother]

private theorem set_left (h : AgreeBut key vs ws) (name : String) (value : ParamValue) :
    AgreeBut key (vs.set (key.slot name) value) ws := by
  intro other hother name'
  rw [get_set, if_neg fun hslot => hother (RuleKey.eq_of_slot hslot), h other hother]

end AgreeBut

end Values

/-! ## Two tunings that differ in the parameters of one rule -/

namespace Tuning

/-- The same severities, and the same values but for the parameters of one rule of a checker. -/
structure AgreeBut (c : Checker) (key : RuleKey) (t u : Tuning) : Prop where
  severity : t.severity = u.severity
  elsewhere : ∀ d, d ≠ c → t.values d = u.values d
  here : (t.values c).AgreeBut key (u.values c)

namespace AgreeBut

variable {c : Checker} {key : RuleKey} {t u : Tuning}

private theorem refl (c : Checker) (key : RuleKey) (t : Tuning) : AgreeBut c key t t :=
  ⟨rfl, fun _ _ => rfl, .refl key _⟩

private theorem grade (h : AgreeBut c key t u) (graded : RuleKey) (s : Severity) :
    AgreeBut c key (t.grade graded s) (u.grade graded s) := by
  refine ⟨?_, h.elsewhere, h.here⟩
  funext other
  simp only [Tuning.grade, h.severity]

theorem assign (h : AgreeBut c key t u) (d : Checker) (slot : String) (v : ParamValue) :
    AgreeBut c key (t.assign d slot v) (u.assign d slot v) := by
  refine ⟨h.severity, ?_, ?_⟩
  · intro e he
    simp only [Tuning.assign]
    split
    · next hed => rw [h.elsewhere d (hed ▸ he)]
    · exact h.elsewhere e he
  · simp only [Tuning.assign]
    split
    · next hcd =>
      subst hcd
      exact h.here.set slot v
    · exact h.here

theorem assign_left (h : AgreeBut c key t u) (name : String) (v : ParamValue) :
    AgreeBut c key (t.assign c (key.slot name) v) u := by
  refine ⟨h.severity, ?_, ?_⟩
  · intro d hd
    simp only [Tuning.assign, if_neg hd]
    exact h.elsewhere d hd
  · simp only [Tuning.assign, if_pos]
    exact h.here.set_left name v

/-- Whether a setting is accepted does not depend on the values, which it may show in an error only. -/
theorem tune (h : AgreeBut c key t u) {name param value : String} {d : Checker} {tuned : RuleKey}
    {t' : Tuning} (ht : t.tune name param value d tuned = .ok t') :
    ∃ u', u.tune name param value d tuned = .ok u' ∧ AgreeBut c key t' u' := by
  simp only [tune_eq_ok_iff] at ht ⊢
  obtain ⟨hparam, s, hs, rfl⟩ | ⟨hparam, p, v, hp, hv, rfl⟩ := ht
  · exact ⟨_, Or.inl ⟨hparam, s, hs, rfl⟩, h.grade tuned s⟩
  · exact ⟨_, Or.inr ⟨hparam, p, v, hp, hv, rfl⟩, h.assign d p.slot v⟩

theorem configure (h : AgreeBut c key t u) {host : Host} {reports more : Reports} {setting : String}
    {t' : Tuning} (ht : t.configure host reports setting = .ok (t', more)) :
    ∃ u', u.configure host reports setting = .ok (u', more) ∧ AgreeBut c key t' u' := by
  simp only [configure_eq_ok_iff] at ht ⊢
  obtain ⟨target, param, value, hsplit, ⟨d, named, howner, htune, rfl⟩ | ⟨howner, rfl, hset⟩⟩ := ht
  · obtain ⟨u', hu, hagree⟩ := h.tune htune
    exact ⟨u', ⟨target, param, value, hsplit, Or.inl ⟨d, named, howner, hu, rfl⟩⟩, hagree⟩
  · exact ⟨u, ⟨target, param, value, hsplit, Or.inr ⟨howner, rfl, hset⟩⟩, h⟩

theorem configureAll (h : AgreeBut c key t u) {host : Host} {reports more : Reports}
    {settings : List String} {t' : Tuning} (ht : t.configureAll host reports settings = .ok (t', more)) :
    ∃ u', u.configureAll host reports settings = .ok (u', more) ∧ AgreeBut c key t' u' := by
  induction settings generalizing t u reports with
  | nil =>
    simp only [Tuning.configureAll, Except.ok.injEq, Prod.mk.injEq] at ht
    obtain ⟨rfl, rfl⟩ := ht
    exact ⟨u, rfl, h⟩
  | cons setting settings ih =>
    obtain ⟨t₁, reports₁, hstep, ht⟩ := configureAll_cons_eq_ok_iff.mp ht
    obtain ⟨u₁, hu₁, hagree⟩ := h.configure hstep
    obtain ⟨u', hu', hagree'⟩ := ih hagree ht
    exact ⟨u', by rw [Tuning.configureAll, hu₁]; exact hu', hagree'⟩

end AgreeBut

/-- A setting of a parameter changes a value of its rule and nothing else. -/
theorem agreeBut_of_configure {t t' : Tuning} {host : Host} {reports more : Reports}
    {setting target param value : String} {c : Checker} {key : RuleKey}
    (hsplit : Registry.splitSetting setting = some (target, param, value))
    (hcalled : key.IsCalled target) (hparam : param ≠ "severity") (hc : key ∈ c.keys)
    (h : t.configure host reports setting = .ok (t', more)) : AgreeBut c key t' t ∧ more = reports := by
  have howner := Checker.owner?_eq_some_iff.mpr ⟨c.mem_all, hc, hcalled⟩
  obtain ⟨_, _, _, hsplit', hset⟩ := configure_eq_ok_iff.mp h
  cases hsplit.symm.trans hsplit'
  obtain ⟨_, _, howner', htune, rfl⟩ | ⟨hnone, -⟩ := hset
  · cases howner.symm.trans howner'
    obtain ⟨hgrade, -⟩ | ⟨-, p, v, hp, -, rfl⟩ := tune_eq_ok_iff.mp htune
    · exact absurd hgrade hparam
    · have hslot : p.slot = key.slot p.name :=
        RuleKey.slot_of_mem_params (List.mem_of_find?_eq_some hp)
      exact ⟨hslot ▸ (AgreeBut.refl c key t).assign_left p.name v, rfl⟩
  · cases howner.symm.trans hnone

/-- Accepted settings are accepted without one of them that is for a parameter, and lead to the same
values for all other rules. -/
theorem configureAll_without {t t' : Tuning} {host : Host} {reports more : Reports}
    {before after : List String} {setting target param value : String} {c : Checker} {key : RuleKey}
    (hsplit : Registry.splitSetting setting = some (target, param, value))
    (hcalled : key.IsCalled target) (hparam : param ≠ "severity") (hc : key ∈ c.keys)
    (h : t.configureAll host reports (before ++ setting :: after) = .ok (t', more)) :
    ∃ u, t.configureAll host reports (before ++ after) = .ok (u, more) ∧ AgreeBut c key t' u := by
  induction before generalizing t reports with
  | nil =>
    obtain ⟨t₁, reports₁, hstep, hrest⟩ := configureAll_cons_eq_ok_iff.mp h
    obtain ⟨hagree, rfl⟩ := agreeBut_of_configure hsplit hcalled hparam hc hstep
    exact hagree.configureAll hrest
  | cons first before ih =>
    obtain ⟨t₁, reports₁, hstep, h⟩ := configureAll_cons_eq_ok_iff.mp h
    obtain ⟨u, hu, hagree⟩ := ih h
    exact ⟨u, by rw [List.cons_append, configureAll, hstep]; exact hu, hagree⟩

end Tuning

/-! ## The issues of one rule -/

def RuleKey.reported (key : RuleKey) (issues : List Issue) : List Issue :=
  issues.filter fun i => decide (i.ruleId = key.id)

theorem RuleKey.reported_append (key : RuleKey) (issues more : List Issue) :
    key.reported (issues ++ more) = key.reported issues ++ key.reported more := List.filter_append _ _

namespace Checker

variable (host : Host) (on : RuleKey → Bool) (c : Checker)

theorem reported_issuesOf {t : Tuning} {source : String} {off : Disablers} {findings : List Finding}
    {issues : List Issue} (h : (c.tuned host on t).issuesOf source off findings = .ok issues)
    (key : RuleKey) :
    key.reported issues =
      (key.among findings).filterMap ((c.tuned host on t).issueOf? source off) := by
  rw [CheckerEntry.issuesOf_eq h]
  clear h
  induction findings with
  | nil => rfl
  | cons f findings ih =>
    cases hf : (c.tuned host on t).issueOf? source off f with
    | none =>
      rw [List.filterMap_cons, hf, ih, RuleKey.among_cons]
      split
      · rw [List.filterMap_cons, hf]
      · rfl
    | some i =>
      obtain ⟨-, -, hrule, -⟩ := issueOf_eq_some host on t c (CheckerEntry.issueOf_of_issueOf? hf)
      have hid : i.ruleId = key.id ↔ f.rule = key := by
        rw [hrule]
        exact ⟨RuleKey.eq_of_id, fun heq => heq ▸ rfl⟩
      rw [List.filterMap_cons, hf, RuleKey.among_cons, RuleKey.reported, List.filter_cons]
      by_cases hkey : f.rule = key
      · rw [if_pos (decide_eq_true (hid.mpr hkey)), if_pos hkey, List.filterMap_cons, hf]
        exact congrArg (i :: ·) ih
      · rw [if_neg (by simpa using fun h => hkey (hid.mp h)), if_neg hkey]
        exact ih

theorem issueOf?_congr {t u : Tuning} (h : t.severity = u.severity) :
    (c.tuned host on t).issueOf? = (c.tuned host on u).issueOf? := by
  funext source off f
  have htuned (key : RuleKey) : key.tuned on t = key.tuned on u := by
    rw [RuleKey.tuned, RuleKey.tuned, h]
  simp only [CheckerEntry.issueOf?, CheckerEntry.issueOf, CheckerEntry.issue,
    Registry.ruleNamed?_tuned, htuned]

end Checker

namespace Linter

section

variable {host : Host} {on : RuleKey → Bool} {t : Tuning} {job : Job} {w : Wake} {ws : Checker → Wake}
  {issues : List Issue} {key : RuleKey}

theorem reported_of_not_mem_keys {d : Checker}
    (h : shareOf job w (d.tuned host on t) = .ok issues)
    (hkey : key ∉ d.keys) : key.reported issues = [] := by
  rw [RuleKey.reported, List.filter_eq_nil_iff]
  intro i hi hid
  obtain ⟨other, hother, -, hid', -⟩ := mem_shareOf h hi
  have heq : other = key := RuleKey.eq_of_id (hid'.symm.trans (by simpa using hid))
  exact hkey (heq ▸ hother)

theorem reported_outcomes_eq_nil {cs : List Checker}
    (h : outcomes job ws (cs.map (·.tuned host on t)) = .ok issues)
    (hkeys : ∀ d ∈ cs, key ∉ d.keys) : key.reported issues = [] := by
  induction cs generalizing issues with
  | nil =>
    rw [← Except.ok.inj h]
    rfl
  | cons d cs ih =>
    obtain ⟨here, more, hhere, hmore, rfl⟩ := outcomes_cons_eq_ok_iff.mp h
    rw [RuleKey.reported_append, reported_of_not_mem_keys hhere (hkeys d List.mem_cons_self),
      ih hmore fun e he => hkeys e (List.mem_cons_of_mem d he)]
    rfl

/-- The issues of one rule come from its checker. -/
theorem reported_outcomes {cs : List Checker} (hcs : cs.Nodup)
    (h : outcomes job ws (cs.map (·.tuned host on t)) = .ok issues)
    {c : Checker} (hc : c ∈ cs) (hkey : key ∈ c.keys) :
    ∃ here, shareOf job (ws c) (c.tuned host on t) = .ok here ∧
      key.reported issues = key.reported here := by
  have hunique (d : Checker) (hd : key ∈ d.keys) : d = c :=
    (Checker.eq_of_isCalled d.mem_all c.mem_all hd hkey (Or.inl rfl) (Or.inl rfl)).1
  induction cs generalizing issues with
  | nil => cases hc
  | cons d cs ih =>
    rw [List.nodup_cons] at hcs
    obtain ⟨here, more, hhere, hmore, rfl⟩ := outcomes_cons_eq_ok_iff.mp h
    rw [RuleKey.reported_append]
    by_cases hd : d = c
    · subst hd
      refine ⟨here, hhere, ?_⟩
      rw [reported_outcomes_eq_nil hmore fun e he hmem => hcs.1 (hunique e hmem ▸ he), List.append_nil]
    · rw [reported_of_not_mem_keys hhere fun hkeys => hd (hunique d hkeys), List.nil_append]
      exact ih hcs.2 hmore ((List.mem_cons.mp hc).resolve_left (Ne.symm hd))

/-- The issues of a rule are those of what its checker finds, as far as they are kept. There are none if
the checker is left out. -/
theorem reported_check {memory : Memory} {s : Subject} {c : Checker} (hkey : key ∈ c.keys)
    (hwhole : ¬ s.content.disablers.wholeFile = true)
    (h : (check ⟨host, .tuned host on t, memory⟩ s).1 = .ok issues) :
    if (c.tuned host on t).disabled then key.reported issues = []
    else ∃ findings, (c.run (s.job host) (t.values c) (view host on memory s c)).1 = .ok findings ∧
      key.reported issues = (key.among findings).filterMap
        ((c.tuned host on t).issueOf? s.fileName s.content.disablers) := by
  rw [check_tuned, if_neg hwhole] at h
  obtain ⟨here, hhere, hsame⟩ := reported_outcomes host.checkers_nodup h (host.mem_checkers c) hkey
  unfold shareOf at hhere
  split
  · next hoff =>
    rw [if_pos hoff] at hhere
    rw [hsame, ← Except.ok.inj hhere]
    rfl
  · next hoff =>
    rw [if_neg hoff] at hhere
    obtain ⟨findings, hrun, hissues⟩ := outcome_ok hhere
    exact ⟨findings, hrun, hsame.trans (Checker.reported_issuesOf _ _ _ hissues key)⟩

end

def issueOf? (l : Linter) (key : RuleKey) (s : Subject) (f : Finding) : Option Issue :=
  if s.content.disablers.wholeFile then none
  else (l.registry.find? key.id).bind fun found =>
    found.2.1.issueOf? s.fileName s.content.disablers f

def valuesFor (l : Linter) (key : RuleKey) : Values :=
  ((l.registry.find? key.id).map (·.2.1.values)).getD []

def sectionOrder (l : Linter) : SectionOrder :=
  (l.valuesFor .sectionOutOfOrder).order (RuleKey.sectionOutOfOrder.slot "sections_order")

/-- The issues of a rule at a keyword that keeps to the limit of another rule, which comes first. -/
def laterIssues (l : Linter) (limit key : RuleKey) (s : Subject) (n : Node) : List Issue :=
  (Check.Length.laterFindings limit key (l.valuesFor limit) n).filterMap (l.issueOf? key s)

/-- The issues of a rule at headers of the kinds that an order lists, for clashes with other headers. -/
def clashIssues (l : Linter) (key : RuleKey) (s : Subject) (order : SectionOrder) : List Issue :=
  (key.among (Check.SectionHeader.clashesIn order
    (Check.SectionHeader.clashes s.document))).filterMap (l.issueOf? key s)

section

variable (host : Host) (on : RuleKey → Bool) (t : Tuning) (memory : Memory)

theorem find?_id {c : Checker} {key : RuleKey} (h : key ∈ c.keys) :
    (Registry.tuned host on t).find? key.id =
      some (⟨host.checkers.idxOf c, key.name⟩, c.tuned host on t, key.tuned on t) := by
  rw [Registry.find?_tuned, Checker.owner?_eq_some_iff.mpr ⟨c.mem_all, h, Or.inr rfl⟩]
  rfl

theorem valuesFor_tuned {c : Checker} {key : RuleKey} (h : key ∈ c.keys) :
    valuesFor ⟨host, .tuned host on t, memory⟩ key = t.values c := by
  rw [valuesFor, find?_id host on t h]
  rfl

theorem issueOf?_tuned {c : Checker} {key : RuleKey} (h : key ∈ c.keys) {s : Subject}
    (hfile : ¬ s.content.disablers.wholeFile = true) :
    issueOf? ⟨host, .tuned host on t, memory⟩ key s =
      (c.tuned host on t).issueOf? s.fileName s.content.disablers := by
  funext f
  rw [issueOf?, if_neg hfile, find?_id host on t h]
  rfl

private theorem issueOf?_congr {t u : Tuning} (h : t.severity = u.severity) (key : RuleKey) (s : Subject) :
    issueOf? ⟨host, .tuned host on t, memory⟩ key s =
      issueOf? ⟨host, .tuned host on u, memory⟩ key s := by
  obtain ⟨c, hc⟩ := Checker.exists_mem_keys key
  funext f
  rw [issueOf?, issueOf?, find?_id host on t hc, find?_id host on u hc, Option.bind_some,
    Option.bind_some, Checker.issueOf?_congr host on c h]

end

end Linter

def RuleKey.onClashes : List RuleKey := [.sectionAlreadyDefined, .bothTestsAndTasks]

theorem Checker.mem_keys_of_leftOut {key other : RuleKey} (h : other ∈ Check.Length.leftOut key) :
    other ∈ lengths.keys ∧ key ∈ lengths.keys := by
  cases key <;> simp [Check.Length.leftOut] at h <;> rcases h with rfl | rfl <;> decide

/-- A checker finds the same for a rule, if the values differ in the parameters of another one that is
neither a limit for keywords that comes first nor, for clashes of headers, the order of sections. -/
theorem Checker.sameIn_run {c : Checker} {key other : RuleKey} (hkey : key ∈ c.keys)
    (hmem : other ∈ c.keys) (hother : other ≠ key) {vs ws : Values} (h : vs.AgreeBut key ws)
    (job : Job) (w : Wake) (hleft : other ∉ Check.Length.leftOut key)
    (hheader : key = .sectionOutOfOrder → other ∉ RuleKey.onClashes) :
    other.SameIn (c.run job vs w).1 (c.run job ws w).1 := by
  cases c
  case lengths => exact Check.Length.sameIn_check h hother hleft w.document
  case assignmentSigns => exact Check.Assignment.sameIn_check h hother w.document
  case keywordNaming => exact Check.KeywordName.sameIn_check h hother job.host.modern w.document
  case emptyLines => exact Check.EmptyLine.sameIn_check h hother job.templated w.document
  case sectionHeaders =>
    by_cases horder : key = .sectionOutOfOrder
    · have hclash : other ∈ RuleKey.onClashes := by
        subst horder
        simp only [keys, List.mem_cons, List.not_mem_nil, or_false] at hmem
        simpa [RuleKey.onClashes, hother] using hmem
      exact absurd hclash (hheader horder)
    · simp only [run, h.order (Ne.symm horder)]
      exact .refl _
  -- these have one rule each
  case lineLength | returnedValues | testCaseNumber | charactersInNames =>
    exact absurd ((List.mem_singleton.mp hmem).trans (List.mem_singleton.mp hkey).symm) hother
  -- the others have no parameters
  all_goals exact .refl _

namespace Linter

variable {host : Host} {on : RuleKey → Bool} {t u : Tuning} {memory : Memory} {s : Subject}
  {issues issues' : List Issue}

theorem check_of_wholeFile (hfile : s.content.disablers.wholeFile = true)
    (h : (check ⟨host, .tuned host on t, memory⟩ s).1 = .ok issues) : issues = [] := by
  rw [check_tuned, if_pos hfile] at h
  exact (Except.ok.inj h).symm

/-- Two linters whose values differ in the parameters of one rule report the same for another one. -/
theorem reported_eq {c : Checker} {key other : RuleKey} (hkey : key ∈ c.keys)
    (h : t.AgreeBut c key u) (hother : other ≠ key) (hleft : other ∉ Check.Length.leftOut key)
    (hheader : key = .sectionOutOfOrder → other ∉ RuleKey.onClashes)
    (ht : (check ⟨host, .tuned host on t, memory⟩ s).1 = .ok issues)
    (hu : (check ⟨host, .tuned host on u, memory⟩ s).1 = .ok issues') :
    other.reported issues = other.reported issues' := by
  by_cases hfile : s.content.disablers.wholeFile = true
  · rw [check_of_wholeFile hfile ht, check_of_wholeFile hfile hu]
  obtain ⟨d, hd⟩ := Checker.exists_mem_keys other
  have hleft' := reported_check hd hfile ht
  have hright := reported_check hd hfile hu
  have hdisabled : (d.tuned host on u).disabled = (d.tuned host on t).disabled := rfl
  rw [hdisabled] at hright
  split at hleft'
  · next hoff =>
    rw [if_pos hoff] at hright
    rw [hleft', hright]
  · next hoff =>
    rw [if_neg hoff] at hright
    obtain ⟨findings, hrun, hissues⟩ := hleft'
    obtain ⟨findings', hrun', hissues'⟩ := hright
    have hfindings : other.among findings = other.among findings' := by
      by_cases hdc : d = c
      · subst hdc
        exact Checker.sameIn_run hkey hd hother h.here _ _ hleft hheader findings findings' hrun hrun'
      · rw [h.elsewhere d hdc] at hrun
        rw [Except.ok.inj (hrun.symm.trans hrun')]
    rw [hissues, hissues', hfindings, Checker.issueOf?_congr host on d h.severity]

/-- The issues of a rule are those of the findings that its checker has for it. -/
theorem reported_of_among {c : Checker} {key : RuleKey} (hkey : key ∈ c.keys)
    (hsuits : c.suits host.modern = true) {fs : List Finding} (hrule : ∀ f ∈ fs, f.rule = key)
    (hfs : ∀ findings, (c.run (s.job host) (t.values c) (view host on memory s c)).1 = .ok findings →
      key.among findings = fs)
    (h : (check ⟨host, .tuned host on t, memory⟩ s).1 = .ok issues) (kept : Memory) :
    key.reported issues = fs.filterMap (issueOf? ⟨host, .tuned host on t, kept⟩ key s) := by
  by_cases hfile : s.content.disablers.wholeFile = true
  · rw [check_of_wholeFile hfile h, eq_comm]
    apply List.filterMap_eq_nil_iff.mpr
    intro f _
    rw [issueOf?, if_pos hfile]
  rw [issueOf?_tuned host on t kept hkey hfile]
  have hreported := reported_check hkey hfile h
  split at hreported
  · next hoff =>
    rw [hreported, eq_comm]
    apply List.filterMap_eq_nil_iff.mpr
    intro f hf
    rw [Option.eq_none_iff_forall_ne_some]
    intro i hi
    have hon := (Checker.issueOf_eq_some host on t c (CheckerEntry.issueOf_of_issueOf? hi)).2.1
    simp only [Checker.tuned, hsuits, Bool.not_true, Bool.false_or, Bool.not_eq_true',
      List.any_eq_false] at hoff
    exact hoff key hkey (hrule f hf ▸ hon)
  · obtain ⟨findings, hrun, hissues⟩ := hreported
    rw [hissues, hfs findings hrun]

theorem rule_of_mem_among {key : RuleKey} {fs : List Finding} : ∀ f ∈ key.among fs, f.rule = key := by
  intro f hf
  simpa using (List.mem_filter.mp hf).2

/-- The lengths are the same in the document and in what the check of tag names leaves of it. -/
theorem lengths_view (vs : Values) (c : Checker) :
    Check.Length.check vs (view host on memory s c).document = Check.Length.check vs s.document := by
  rw [← Check.Length.check_map vs _ Statement.isMild_cleaned, cleaned_view,
    Check.Length.check_map vs _ Statement.isMild_cleaned]

/-- The issues on clashes of headers are those at headers of the kinds that the order lists. -/
theorem reported_clashes {other : RuleKey} (hother : other ∈ RuleKey.onClashes)
    (h : (check ⟨host, .tuned host on t, memory⟩ s).1 = .ok issues) (kept : Memory) :
    other.reported issues =
      clashIssues ⟨host, .tuned host on t, kept⟩ other s
        (sectionOrder ⟨host, .tuned host on t, kept⟩) := by
  obtain ⟨hmem, horder⟩ : other ∈ Checker.sectionHeaders.keys ∧ other ≠ .sectionOutOfOrder := by
    revert other
    decide
  have hvalues : valuesFor ⟨host, .tuned host on t, kept⟩ .sectionOutOfOrder =
      t.values .sectionHeaders := valuesFor_tuned host on t kept (by decide)
  refine reported_of_among hmem rfl rule_of_mem_among (fun findings hrun => ?_) h kept
  rw [sectionOrder, hvalues]
  apply Check.SectionHeader.among_check _ horder
  rw [← hrun]
  change _ = Check.SectionHeader.check _ _
  rw [← Check.SectionHeader.check_map _ _ Statement.isMild_cleaned, ← cleaned_view host on memory s,
    Check.SectionHeader.check_map _ _ Statement.isMild_cleaned]

/-- The issues of a rule that comes after the limit of another are those at keywords within that limit. -/
theorem reported_within {limit other : RuleKey} (hother : other ∈ Check.Length.leftOut limit)
    (h : (check ⟨host, .tuned host on t, memory⟩ s).1 = .ok issues) (kept : Memory) :
    other.reported issues =
      ((Check.Length.judged s.document).filter
        (Check.Length.Passes limit (t.values .lengths) ·)).flatMap
          (laterIssues ⟨host, .tuned host on t, kept⟩ limit other s) := by
  obtain ⟨hmem, hlimit⟩ := Checker.mem_keys_of_leftOut hother
  have hlater : laterIssues ⟨host, .tuned host on t, kept⟩ limit other s = fun n =>
      (Check.Length.laterFindings limit other (t.values .lengths) n).filterMap
        (issueOf? ⟨host, .tuned host on t, kept⟩ other s) := by
    funext n
    rw [laterIssues, valuesFor_tuned host on t kept hlimit]
  rw [hlater, ← List.filterMap_flatMap]
  refine reported_of_among hmem rfl (fun f hf => ?_) (fun findings hrun => ?_) h kept
  · obtain ⟨n, -, hf⟩ := List.mem_flatMap.mp hf
    unfold Check.Length.laterFindings at hf
    split at hf
    · cases hf
    · exact rule_of_mem_among f hf
  · exact Check.Length.among_check_of_leftOut hother (by rw [← lengths_view]; exact hrun)

end Linter

namespace Options

open Check.Length

/-- Accepted options are accepted without a setting of a parameter, and the other rules than its own
report the same with it and without it. The order of sections (0809) is an exception, as it also tells which
headers are looked at: for clashes of headers (0808, 0810), both report what is found at headers of the kinds
that their order lists. So are the limits for the length of keywords (0501) and for their least number of
calls (0502): of the rules that come after them (0502, 0503), both report what is found at the keywords that
keep to their limit. -/
theorem setting_confined (o : Options) {host : Host} {before after : List String}
    {setting target param value : String} {key : RuleKey}
    (hsettings : o.settings = before ++ setting :: after)
    (hsplit : Registry.splitSetting setting = some (target, param, value))
    (hkey : key.IsCalled target) (hparam : param ≠ "severity") {notes : List String} {s : Setup}
    (h : o.setup host = (notes, .ok s)) :
    ∃ s' : Setup, { o with settings := before ++ after }.setup host = (notes, .ok s') ∧
      ∀ (memory : Memory) (subject : Subject) (issues issues' : List Issue),
        ({ s.linter with memory := memory }.check subject).1 = .ok issues →
        ({ s'.linter with memory := memory }.check subject).1 = .ok issues' →
        ∀ other : RuleKey, other ≠ key →
          (other ∉ leftOut key → (key = .sectionOutOfOrder → other ∉ RuleKey.onClashes) →
            other.reported issues = other.reported issues') ∧
          (other ∈ leftOut key →
            other.reported issues = ((judged subject.document).filter
              (Passes key (s.linter.valuesFor key) ·)).flatMap (s.linter.laterIssues key other subject) ∧
            other.reported issues' = ((judged subject.document).filter
              (Passes key (s'.linter.valuesFor key) ·)).flatMap (s.linter.laterIssues key other subject)) ∧
          (key = .sectionOutOfOrder → other ∈ RuleKey.onClashes →
            other.reported issues = s.linter.clashIssues other subject s.linter.sectionOrder ∧
            other.reported issues' = s.linter.clashIssues other subject s'.linter.sectionOrder) := by
  obtain ⟨c, hc⟩ := Checker.exists_mem_keys key
  obtain ⟨hvalid, t, hall, hlinter⟩ := setup_ok_iff.mp h
  rw [hsettings] at hall
  obtain ⟨u, hwithout, hagree⟩ := Tuning.configureAll_without hsplit hkey hparam hc hall
  refine ⟨⟨⟨host, .tuned host o.selection.picks u, .blank⟩, s.reports⟩,
    setup_ok_iff.mpr ⟨hvalid, u, hwithout, rfl⟩, ?_⟩
  intro memory subject issues issues' hissues hissues' other hother
  rw [hlinter] at hissues ⊢
  refine ⟨fun hleft hheader => ?_, fun hleft => ?_, fun _ hclash => ?_⟩
  · exact Linter.reported_eq hc hagree hother hleft hheader hissues hissues'
  · obtain ⟨-, hmem⟩ := Checker.mem_keys_of_leftOut hleft
    obtain rfl : c = .lengths :=
      (Checker.eq_of_isCalled c.mem_all (Checker.mem_all _) hc hmem (Or.inl rfl) (Or.inl rfl)).1
    rw [Linter.valuesFor_tuned host _ t _ hc, Linter.valuesFor_tuned host _ u _ hc]
    have hsame : Linter.laterIssues ⟨host, .tuned host o.selection.picks t, .blank⟩ key other subject =
        Linter.laterIssues ⟨host, .tuned host o.selection.picks u, .blank⟩ key other subject := by
      funext n
      rw [Linter.laterIssues, Linter.laterIssues, Linter.valuesFor_tuned host _ t _ hc,
        Linter.valuesFor_tuned host _ u _ hc, laterFindings_congr hleft hagree.here,
        Linter.issueOf?_congr host _ .blank hagree.severity]
    refine ⟨Linter.reported_within hleft hissues .blank, ?_⟩
    rw [hsame]
    exact Linter.reported_within hleft hissues' .blank
  · refine ⟨Linter.reported_clashes hclash hissues .blank, ?_⟩
    rw [Linter.reported_clashes hclash hissues' .blank, Linter.clashIssues, Linter.clashIssues,
      Linter.issueOf?_congr host _ .blank hagree.severity]

end Options

def Subject.twoVariableSections : Subject :=
  let header (line : Int) : Statement :=
    ⟨.sectionHeader, [⟨.variableHeader, "*** Variables ***", line, 0⟩], []⟩
  ⟨"a.robot", .text [], ⟨none, [⟨.variableRows, some (header 1), []⟩,
    ⟨.variableRows, some (header 3), []⟩]⟩⟩

def Tuning.withoutVariables : Tuning :=
  Tuning.start.assign .sectionHeaders (RuleKey.sectionOutOfOrder.slot "sections_order")
    (.order [(.settings, 0), (.keywords, 1)])

theorem RuleKey.map_reported (key : RuleKey) (issues : List Issue) :
    (key.reported issues).map (fun i => (i.ruleId, i.line)) =
      (issues.map fun i => (i.ruleId, i.line)).filter fun entry => decide (entry.1 = key.id) := by
  rw [List.filter_map]
  rfl

/-- The rules of the issues of a file with their lines; none if the check fails. -/
def Linter.marks? (l : Linter) (s : Subject) : Option (List (String × Int)) :=
  (l.check s).1.toOption.map fun issues => issues.map fun i => (i.ruleId, i.line)

theorem Linter.check_of_marks? {l : Linter} {s : Subject} {marks : List (String × Int)}
    (h : l.marks? s = some marks) :
    ∃ issues, (l.check s).1 = .ok issues ∧ issues.map (fun i => (i.ruleId, i.line)) = marks := by
  unfold marks? at h
  cases hcheck : (l.check s).1 with
  | error e => simp [hcheck, Except.toOption] at h
  | ok issues => exact ⟨issues, rfl, by simpa [hcheck, Except.toOption] using h⟩

theorem Linter.marks?_twoVariableSections :
    marks? ⟨.plain, .tuned .plain RuleKey.anyRule .start, .blank⟩ .twoVariableSections =
      some [("0203", 1), ("0808", 3), ("0509", 1), ("0509", 3), ("0913", 1), ("1003", 1)] := by
  decide +kernel

theorem Linter.marks?_twoVariableSections_withoutVariables :
    marks? ⟨.plain, .tuned .plain RuleKey.anyRule .withoutVariables, .blank⟩ .twoVariableSections =
      some [("0203", 1), ("0509", 1), ("0509", 3), ("0913", 1), ("1003", 1)] := by
  decide +kernel

namespace Options

def withoutVariables : Options :=
  { standard with settings := ["0809:sections_order:settings,keywords"] }

theorem setup_withoutVariables :
    withoutVariables.setup .plain =
      ([], .ok ⟨⟨.plain, .tuned .plain RuleKey.anyRule .withoutVariables, .blank⟩,
        .ofNames ["return_status"]⟩) := by
  rw [setup_ok_iff, ← Selection.picks_everything]
  exact ⟨⟨.everything, Selection.validate_everything ..⟩, .withoutVariables, rfl, rfl⟩

theorem setup_standard_anyRule :
    standard.setup .plain =
      ([], .ok ⟨⟨.plain, .tuned .plain RuleKey.anyRule .start, .blank⟩, .ofNames ["return_status"]⟩) := by
  rw [← Selection.picks_everything]
  exact setup_standard .plain

/-- Empty lines between sections are reported as they are without the order, and repeated headers as
far as the order lists their kinds. -/
theorem setting_confined_withoutVariables :
    ∃ (s s' : Setup) (issues issues' : List Issue),
      withoutVariables.settings = [] ++ "0809:sections_order:settings,keywords" :: [] ∧
      withoutVariables.setup .plain = ([], .ok s) ∧ standard.setup .plain = ([], .ok s') ∧
      (s.linter.check .twoVariableSections).1 = .ok issues ∧
      (s'.linter.check .twoVariableSections).1 = .ok issues' ∧
      RuleKey.emptyLinesBetweenSections.reported issues =
        RuleKey.emptyLinesBetweenSections.reported issues' ∧
      RuleKey.sectionAlreadyDefined.reported issues =
        s.linter.clashIssues .sectionAlreadyDefined .twoVariableSections s.linter.sectionOrder := by
  obtain ⟨issues, hissues, -⟩ :=
    Linter.check_of_marks? Linter.marks?_twoVariableSections_withoutVariables
  obtain ⟨issues', hissues', -⟩ := Linter.check_of_marks? Linter.marks?_twoVariableSections
  have hsettings : withoutVariables.settings =
      [] ++ "0809:sections_order:settings,keywords" :: [] := rfl
  have hsplit : Registry.splitSetting "0809:sections_order:settings,keywords" =
      some ("0809", "sections_order", "settings,keywords") := rfl
  have hcalled : RuleKey.sectionOutOfOrder.IsCalled "0809" := Or.inr rfl
  obtain ⟨s', hs', hall⟩ := setting_confined withoutVariables hsettings hsplit hcalled (by decide)
    setup_withoutVariables
  obtain rfl : s' = _ := by simpa using hs'.symm.trans setup_standard_anyRule
  have hother := hall .blank .twoVariableSections issues issues' hissues hissues'
  refine ⟨_, _, issues, issues', hsettings, setup_withoutVariables, setup_standard_anyRule, hissues,
    hissues', ?_, ?_⟩
  · exact (hother .emptyLinesBetweenSections (by decide)).1 (by decide) fun _ => by decide
  · exact ((hother .sectionAlreadyDefined (by decide)).2.2 rfl (by decide)).1

/-- An order that does not list sections for variables hides that one is there twice. -/
theorem order_hides_repeated_section :
    ∃ (s s' : Setup) (issues issues' : List Issue),
      withoutVariables.setup .plain = ([], .ok s) ∧ standard.setup .plain = ([], .ok s') ∧
      (s.linter.check .twoVariableSections).1 = .ok issues ∧
      (s'.linter.check .twoVariableSections).1 = .ok issues' ∧
      RuleKey.sectionAlreadyDefined.reported issues = [] ∧
      (RuleKey.sectionAlreadyDefined.reported issues').map (fun i => (i.ruleId, i.line)) =
        [("0808", 3)] := by
  obtain ⟨issues, hissues, hids⟩ :=
    Linter.check_of_marks? Linter.marks?_twoVariableSections_withoutVariables
  obtain ⟨issues', hissues', hids'⟩ := Linter.check_of_marks? Linter.marks?_twoVariableSections
  refine ⟨_, _, issues, issues', setup_withoutVariables, setup_standard_anyRule, hissues, hissues',
    ?_, ?_⟩
  · rw [← List.map_eq_nil_iff, RuleKey.map_reported, hids]
    decide
  · rw [RuleKey.map_reported, hids']
    decide

end Options

end SuiteLint
