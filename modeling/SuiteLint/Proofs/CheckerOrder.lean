import SuiteLint.Proofs.SelectionFilter
import SuiteLint.Proofs.StableSort
import SuiteLint.Proofs.TidyChecks

/-!
# The order of the checkers does not matter

Any two checkers can change places: each finds what it finds alone, and together they leave the same state
behind. An issue is of a rule that one checker owns, so sorting brings the issues of all orders into one.
-/

namespace SuiteLint

private theorem plainDocs_map_tidied {ns : List Node} :
    PlainDocs (ns.map (Node.map Statement.tidied)) ↔ PlainDocs ns := by
  rw [plainDocs_iff, plainDocs_iff, Node.filterMap_statement?_map]
  simp only [List.forall_mem_map, Statement.kind_tidied, Statement.isPlainDoc_tidied]

namespace Checker

variable (job : Job) (values : Values)

theorem tidied_run (c : Checker) {w : Wake} (hplain : PlainDocs w.document.visited) :
    (c.run job values w).2.document.map Statement.tidied = w.document.map Statement.tidied := by
  by_cases hc : c = .tagNames
  · subst hc
    exact tidied_cleanedBy job hplain
  · rw [document_run job values hc]

private theorem plainDocs_run (c : Checker) {w : Wake} (hplain : PlainDocs w.document.visited) :
    PlainDocs (c.run job values w).2.document.visited := by
  have htidied := congrArg Document.visited (tidied_run job values c hplain)
  rw [Document.visited_map, Document.visited_map] at htidied
  rw [← plainDocs_map_tidied, htidied, plainDocs_map_tidied]
  exact hplain

variable (values' : Values)

/-- A checker finds the same before and after another. -/
theorem findings_run {c d : Checker} (hne : c ≠ d) {w : Wake}
    (hplain : PlainDocs w.document.visited) :
    (d.run job values' (c.run job values w).2).1 = (d.run job values' w).1 := by
  have hdocument : (d.run job values' (c.run job values w).2).1 =
      (d.run job values' ⟨w.document, (c.run job values w).2.memory⟩).1 := by
    by_cases hd : d = .tagNames
    · rw [← document_run job values (fun hc => hne (hc.trans hd.symm)) w]
    · exact (run_eq_of_tidied job values' hd (tidied_run job values c hplain) _).1
  rw [hdocument]
  exact run_congr job values' d _ (readsAlike_run job values hne w)

/-- The state after the check of tag names and another does not depend on which of them comes first. -/
theorem tagNames_run_comm {d : Checker} (hd : d ≠ .tagNames) {w : Wake}
    (hplain : PlainDocs w.document.visited) :
    (d.run job values' (tagNames.run job values w).2).2 =
      (tagNames.run job values (d.run job values' w).2).2 := by
  have htidied := tidied_run job values .tagNames hplain
  by_cases hleaves : d.leavesNothing = true
  · rw [run_wake job values' hleaves, run_wake job values' hleaves]
  · cases d
    case tagNames => exact absurd rfl hd
    case similarVariables =>
      simp only [run] at htidied ⊢
      cases hnames : Check.Tag.checkNames w.memory.inKeyword w.document with
      | error e => rfl
      | ok found =>
        simp only [hnames] at htidied ⊢
        rw [← Check.Variable.checkSimilar_tidied, htidied, Check.Variable.checkSimilar_tidied]
    case tagScopes =>
      simp only [run] at htidied ⊢
      cases hnames : Check.Tag.checkNames w.memory.inKeyword w.document with
      | error e => rfl
      | ok found =>
        simp only [hnames] at htidied ⊢
        rw [← Check.Tag.checkScopes_map Statement.isMild_tidied, htidied,
          Check.Tag.checkScopes_map Statement.isMild_tidied]
    all_goals exact absurd rfl hleaves

theorem run_comm {c d : Checker} (hne : c ≠ d) {w : Wake} (hplain : PlainDocs w.document.visited) :
    (d.run job values' (c.run job values w).2).2 = (c.run job values (d.run job values' w).2).2 := by
  by_cases hc : c = .tagNames
  · subst hc
    exact tagNames_run_comm job values values' hne.symm hplain
  by_cases hd : d = .tagNames
  · subst hd
    exact (tagNames_run_comm job values' values hne hplain).symm
  by_cases hcleaves : c.leavesNothing = true
  · rw [run_wake job values hcleaves, run_wake job values hcleaves]
  by_cases hdleaves : d.leavesNothing = true
  · rw [run_wake job values' hdleaves, run_wake job values' hdleaves]
  -- The two that are left write different fields of the memory and nothing else.
  cases c
  case similarVariables =>
    cases d
    case similarVariables => exact absurd rfl hne
    case tagNames => exact absurd rfl hd
    case tagScopes => rfl
    all_goals exact absurd rfl hdleaves
  case tagScopes =>
    cases d
    case similarVariables => rfl
    case tagNames => exact absurd rfl hd
    case tagScopes => exact absurd rfl hne
    all_goals exact absurd rfl hdleaves
  case tagNames => exact absurd rfl hc
  all_goals exact absurd rfl hcleaves

end Checker

namespace Linter

variable {job : Job} {c d : CheckerEntry Checker} {w : Wake}

private theorem plainDocs_leftBy (hplain : PlainDocs w.document.visited) :
    PlainDocs (leftBy job w c).document.visited := by
  unfold leftBy
  split
  · exact hplain
  · exact Checker.plainDocs_run job c.values c.tag hplain

theorem shareOf_leftBy (hne : c.tag ≠ d.tag) (hplain : PlainDocs w.document.visited) :
    shareOf job (leftBy job w c) d =
      shareOf job w d := by
  unfold leftBy
  split
  · rfl
  · rw [shareOf, outcome, Checker.findings_run job c.values d.values
      hne hplain, shareOf, outcome]

private theorem leftBy_comm (hne : c.tag ≠ d.tag) (hplain : PlainDocs w.document.visited) :
    leftBy job (leftBy job w c) d =
      leftBy job (leftBy job w d) c := by
  have hcomm := Checker.run_comm job c.values d.values hne hplain
  cases hc : c.disabled <;> cases hd : d.disabled <;> simp [leftBy, hc, hd, hcomm]

variable {host : Host} {on : RuleKey → Bool} {t : Tuning}

/-- Of two checkers at most one has issues that agree with a given one. -/
theorem peers_shareOf {c d : Checker} (hne : c ≠ d) {w w' : Wake} {here there : List Issue}
    (hc : shareOf job w (c.tuned host on t) = .ok here)
    (hd : shareOf job w' (d.tuned host on t) = .ok there)
    (i : Issue) :
    peers Issue.precedes i here = [] ∨ peers Issue.precedes i there = [] := by
  cases hpeers : peers Issue.precedes i here with
  | nil => exact .inl rfl
  | cons a _ =>
    refine .inr (List.eq_nil_iff_forall_not_mem.mpr fun b hb => hne ?_)
    have ha : a ∈ peers Issue.precedes i here := by
      rw [hpeers]
      exact List.mem_cons_self
    obtain ⟨ha, hia, hai⟩ := mem_peers.mp ha
    obtain ⟨hb, hib, hbi⟩ := mem_peers.mp hb
    obtain ⟨key, hkey, -, hida, -⟩ := mem_shareOf hc ha
    obtain ⟨other, hother, -, hidb, -⟩ := mem_shareOf hd hb
    have hid : key.id = other.id := by
      rw [← hida, ← hidb, ← Issue.ruleId_eq_of_precedes hia hai, Issue.ruleId_eq_of_precedes hib hbi]
    exact (Checker.eq_of_isCalled c.mem_all d.mem_all hkey hother (Or.inr rfl) (Or.inr hid)).1

/-- Checkers in another order report the same up to the order of issues that do not agree, and
remember the same. -/
theorem runAll_perm {cs cs' : List Checker} (hperm : cs.Perm cs') (hnodup : cs.Nodup) {w : Wake}
    (hplain : PlainDocs w.document.visited) {issues : List Issue} {memory : Memory}
    (h : runAll job w (cs.map (·.tuned host on t)) =
      (.ok issues, memory)) :
    ∃ issues', runAll job w (cs'.map (·.tuned host on t)) =
        (.ok issues', memory) ∧
      ∀ i, peers Issue.precedes i issues' = peers Issue.precedes i issues := by
  induction hperm generalizing w issues with
  | nil => exact ⟨issues, h, fun i => rfl⟩
  | cons c _ ih =>
    obtain ⟨here, more, hc, hmore, rfl⟩ := runAll_cons_eq_ok_iff.mp h
    obtain ⟨more', hmore', hpeers⟩ := ih (List.nodup_cons.mp hnodup).2 (plainDocs_leftBy hplain) hmore
    refine ⟨here ++ more', runAll_cons_eq_ok_iff.mpr ⟨here, more', hc, hmore', rfl⟩, fun i => ?_⟩
    rw [peers_append, peers_append, hpeers]
  | swap c d cs =>
    have hne : d ≠ c := fun heq => (List.nodup_cons.mp hnodup).1 (by simp [heq])
    obtain ⟨here, more, hd, hmore, rfl⟩ := runAll_cons_eq_ok_iff.mp h
    obtain ⟨there, rest, hc, hrest, rfl⟩ := runAll_cons_eq_ok_iff.mp hmore
    rw [shareOf_leftBy hne hplain] at hc
    rw [leftBy_comm hne hplain] at hrest
    have hd' : shareOf job
        (leftBy job w (c.tuned host on t)) (d.tuned host on t) =
          .ok here := by
      rw [shareOf_leftBy hne.symm hplain]
      exact hd
    refine ⟨there ++ (here ++ rest), runAll_cons_eq_ok_iff.mpr ⟨there, _, hc,
      runAll_cons_eq_ok_iff.mpr ⟨here, rest, hd', hrest, rfl⟩, rfl⟩, fun i => ?_⟩
    simp only [peers_append]
    rcases peers_shareOf hne hd hc i with hnil | hnil <;>
      simp [hnil]
  | trans hperm _ ih ih' =>
    obtain ⟨issues₁, h₁, hpeers₁⟩ := ih hnodup hplain h
    obtain ⟨issues₂, h₂, hpeers₂⟩ := ih' (hperm.nodup_iff.mp hnodup) hplain h₁
    exact ⟨issues₂, h₂, fun i => (hpeers₂ i).trans (hpeers₁ i)⟩

theorem check_perm {r : Registry Checker} (hr : r.active.Perm (Registry.tuned host on t).active)
    {m : Memory} {s : Subject} (hplain : PlainDocs s.document.visited) {issues : List Issue}
    {l : Linter} (h : check ⟨host, .tuned host on t, m⟩ s = (.ok issues, l)) :
    ∃ issues', check ⟨host, r, m⟩ s = (.ok issues', { l with registry := r }) ∧
      Issue.sort issues' = Issue.sort issues := by
  have htags : (r.active.map (·.tag)).Perm host.checkers := by
    simpa only [Registry.active_tuned, Registry.tags_tuned] using hr.map (·.tag)
  have hactive : r.active = (r.active.map (·.tag)).map (·.tuned host on t) := by
    rw [List.map_map]
    refine (List.map_id' r.active).symm.trans (List.map_congr_left fun c hc => ?_)
    rw [Registry.active_tuned] at hr
    obtain ⟨k, -, rfl⟩ := List.mem_map.mp (hr.mem_iff.mp hc)
    rfl
  cases hfile : s.content.disablers.wholeFile with
  | true =>
    simp only [check, Subject.off_job, hfile, if_true, Prod.mk.injEq, Except.ok.injEq] at h ⊢
    obtain ⟨rfl, rfl⟩ := h
    exact ⟨[], ⟨rfl, rfl⟩, rfl⟩
  | false =>
    simp only [check, Subject.off_job, hfile, Bool.false_eq_true, if_false, Prod.mk.injEq] at h ⊢
    obtain ⟨hissues, rfl⟩ := h
    rw [Registry.active_tuned] at hissues ⊢
    obtain ⟨issues', h', hpeers⟩ := runAll_perm htags.symm host.checkers_nodup hplain (Prod.ext hissues rfl)
    rw [← hactive] at h'
    refine ⟨issues', ?_, mergeSort_eq_of_peers_eq Issue.precedes_trans Issue.precedes_total hpeers⟩
    rw [h']
    exact ⟨rfl, rfl⟩

end Linter

namespace Options

/-- A report does not depend on the order of the checkers: in any order they find the issues that they
find in their own, and remember the same, so that the sorted list is one and the same. -/
theorem report_unchanged_by_checker_order (o : Options) {host : Host} {notes : List String}
    {s : Setup} (h : o.setup host = (notes, .ok s)) {memory : Memory} {subject : Subject}
    (hdocs : PlainDocs subject.document.visited) {issues : List Issue} {l : Linter}
    (hcheck : { s.linter with memory := memory }.check subject = (.ok issues, l))
    {r : Registry Checker} (hr : r.active.Perm s.linter.registry.active) :
    ∃ issues', { s.linter with registry := r, memory := memory }.check subject =
        (.ok issues', { l with registry := r }) ∧
      Issue.sort issues' = Issue.sort issues ∧
      (Issue.sort issues).Perm issues ∧ (Issue.sort issues).Perm issues' ∧
      (Issue.sort issues).Pairwise fun i j =>
        i.line < j.line ∨ i.line = j.line ∧
          (i.col < j.col ∨ i.col = j.col ∧ i.ruleId ≤ j.ruleId) := by
  obtain ⟨-, t, -, hlinter⟩ := setup_ok_iff.mp h
  rw [hlinter] at hcheck hr ⊢
  obtain ⟨issues', hcheck', hsort⟩ := Linter.check_perm hr hdocs hcheck
  refine ⟨issues', hcheck', hsort, Issue.sort_perm issues, ?_, ?_⟩
  · rw [← hsort]
    exact Issue.sort_perm issues'
  · exact (Issue.sort_pairwise issues).imp Issue.precedes_iff.mp

end Options

def Subject.taggedKeyword : Subject :=
  ⟨"a.robot", .text [], ⟨none, [⟨.keywords, none,
    [.block .keyword ⟨.keywordName, [⟨.keywordName, "Log In", 2, 0⟩], []⟩
      [.leaf ⟨.documentation, [⟨.documentation, "[Documentation]", 3, 4⟩, ⟨.argument, "Tags:", 3, 21⟩,
        ⟨.argument, "a,", 3, 28⟩, ⟨.argument, "b c,", 3, 32⟩], []⟩]
      none none []]⟩]⟩⟩

theorem Options.report_unchanged_by_checker_order_reversed :
    ∃ (s : Setup) (issues issues' : List Issue), standard.setup .plain = ([], .ok s) ∧
      PlainDocs Subject.taggedKeyword.document.visited ∧
      (s.linter.check .taggedKeyword).1 = .ok issues ∧
      issues.map (·.ruleId) = ["0203", "0502", "0913", "0601"] ∧
      ({ s.linter with registry := .ofCheckers s.linter.registry.active.reverse }.check
        .taggedKeyword).1 = .ok issues' ∧
      Issue.sort issues' = Issue.sort issues := by
  have hdocs : PlainDocs Subject.taggedKeyword.document.visited := by decide
  have hids : (Linter.check ⟨.plain, .tuned .plain standard.selection.picks .start, .blank⟩
      Subject.taggedKeyword).1.toOption.map (List.map (·.ruleId)) =
        some ["0203", "0502", "0913", "0601"] := by
    rw [Linter.check_tuned]
    decide +kernel
  generalize hcheck : Linter.check ⟨.plain, .tuned .plain standard.selection.picks .start, .blank⟩
    Subject.taggedKeyword = result at hids
  obtain ⟨e | issues, l⟩ := result
  · cases hids
  · obtain ⟨issues', hcheck', hsort, -⟩ := report_unchanged_by_checker_order standard
      (setup_standard .plain) hdocs hcheck
      (r := .ofCheckers (Registry.tuned .plain standard.selection.picks .start).active.reverse)
      (by rw [Registry.active_ofCheckers]; exact List.reverse_perm _)
    exact ⟨_, issues, issues', setup_standard .plain, hdocs, congrArg Prod.fst hcheck,
      Option.some.inj hids, congrArg Prod.fst hcheck', hsort⟩

end SuiteLint
