import SuiteLint.Proofs.FaultReporting

/-!
# From findings to issues

A finding becomes an issue if its rule is on and no comment switches it off. Where the messages of all
findings can be filled in, nothing fails on this way, and the issues are those of the findings that are
left, in their order.
-/

namespace SuiteLint

theorem Text.fillFrom_of_no_place {rest : List Char} (h : '%' ∉ rest) (index : Nat) {bound : Nat}
    (hbound : rest.length < bound) : Text.fillFrom bound ⟨index, rest, []⟩ = .ok rest := by
  induction rest generalizing index bound with
  | nil =>
    cases bound with
    | zero => exact absurd hbound (Nat.not_lt_zero _)
    | succ bound => rfl
  | cons c rest ih =>
    cases bound with
    | zero => exact absurd hbound (Nat.not_lt_zero _)
    | succ bound =>
      rw [List.mem_cons, not_or] at h
      have hmore := ih h.2 (index + 1) (Nat.lt_of_succ_lt_succ hbound)
      unfold Text.fillFrom
      split <;> simp_all [Text.PercentState.skip, bind, Except.bind, pure, Except.pure]

theorem Text.fill_of_no_place {template : String} (h : '%' ∉ template.toList) :
    Text.fill template [] = .ok template := by
  have hlength : template.toList.length < template.length + 1 := by
    rw [String.length_toList]
    exact Nat.lt_succ_self _
  rw [Text.fill, Text.fillFrom_of_no_place h 0 hlength]
  simp only [Except.map, String.ofList_toList]

namespace Finding

def Fills (f : Finding) : Prop := ∃ desc, Text.fill f.rule.template f.args = .ok desc

def message (f : Finding) : String := (Text.fill f.rule.template f.args).toOption.getD ""

def issue (f : Finding) (t : Tuning) (source : String) : Issue :=
  ⟨f.rule.id, f.rule.name, t.severity f.rule, f.line, f.col, f.line, f.col, f.message, source,
    f.extraLines⟩

end Finding

namespace Checker

variable (host : Host) (on : RuleKey → Bool) (t : Tuning) (c : Checker)

theorem issueOf_of_fills {f : Finding} (hkey : f.rule ∈ c.keys) (hfills : f.Fills) (source : String) :
    (c.tuned host on t).issueOf source f =
      .ok (if on f.rule then some (f.issue t source) else none) := by
  obtain ⟨desc, hdesc⟩ := hfills
  have hmessage : f.message = desc := by rw [Finding.message, hdesc]; rfl
  have htemplate : (f.rule.tuned on t).desc = f.rule.template := rfl
  rw [CheckerEntry.issueOf, CheckerEntry.issue, Registry.ruleNamed?_tuned, find?_keys hkey]
  simp only [Option.map_some, Rule.issue, htemplate, hdesc, bind, Except.bind, pure, Except.pure,
    Finding.issue, hmessage]
  rfl

theorem mapM_issueOf_of_fills (source : String) {findings : List Finding}
    (h : ∀ f ∈ findings, f.rule ∈ c.keys ∧ f.Fills) :
    findings.mapM ((c.tuned host on t).issueOf source) =
      .ok (findings.map fun f => if on f.rule then some (f.issue t source) else none) := by
  induction findings with
  | nil => rfl
  | cons f findings ih =>
    obtain ⟨hkey, hfills⟩ := h f List.mem_cons_self
    have hrest := ih fun g hg => h g (List.mem_cons_of_mem f hg)
    rw [List.mapM_cons, issueOf_of_fills host on t c hkey hfills, hrest]
    rfl

private theorem filterMap_kept {α β : Type} (p : α → Bool) (g : α → β) (xs : List α) :
    (xs.map fun x => if p x then some (g x) else none).filterMap id = (xs.filter p).map g := by
  induction xs with
  | nil => rfl
  | cons x xs ih =>
    rw [List.map_cons, List.filterMap_cons, ih]
    by_cases h : p x = true
    · rw [if_pos h, List.filter_cons_of_pos h]
      rfl
    · rw [if_neg h, List.filter_cons_of_neg h]
      rfl

theorem issuesOf_of_fills (source : String) (off : Disablers) {findings : List Finding}
    (h : ∀ f ∈ findings, f.rule ∈ c.keys ∧ f.Fills) :
    (c.tuned host on t).issuesOf source off findings =
      .ok (((findings.filter (on ·.rule)).map (·.issue t source)).filter fun i =>
        !off.covers (i.line :: i.extraLines) i.ruleId i.name) := by
  rw [CheckerEntry.issuesOf, mapM_issueOf_of_fills host on t c source h]
  simp only [bind, Except.bind, pure, Except.pure, filterMap_kept]

end Checker

/-- Where the findings of a checker can be filled in, it reports those of the rules that are on. -/
theorem Linter.scan_of_fills {host : Host} {on : RuleKey → Bool} {t : Tuning} {memory : Memory}
    {c : Checker} {s : Subject} {findings : List Finding}
    (hrun : (c.run (s.openJob host) (c.tuned host on t).values ⟨s.document, memory⟩).1 =
      .ok findings)
    (h : ∀ f ∈ findings, f.rule ∈ c.keys ∧ f.Fills) :
    scan ⟨host, .tuned host on t, memory⟩ c s =
      .ok ((findings.filter (on ·.rule)).map (·.issue t s.fileName)) := by
  have houtcome : outcome (s.openJob host) ⟨s.document, memory⟩ (c.tuned host on t) =
      (c.tuned host on t).issuesOf s.fileName .none findings := by
    have htag : (c.tuned host on t).tag = c := rfl
    rw [outcome, htag, hrun]
    rfl
  rw [scan_tuned, houtcome, c.issuesOf_of_fills host on t s.fileName .none h,
    List.filter_eq_self.mpr]
  intro i _
  simp [Disablers.covers, Disablers.none]

end SuiteLint
