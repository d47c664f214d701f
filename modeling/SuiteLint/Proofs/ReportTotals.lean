import Mathlib.Data.List.Dedup
import SuiteLint.Run
import SuiteLint.Proofs.ExitStatus
import SuiteLint.Proofs.OutputFile
import SuiteLint.Proofs.StableSort

/-!
# All reports tell of the same issues

Every issue of a run is given to all reports and gets a line of its own. What each report holds at the end
is given here in terms of the issues, so that none can lose an issue or count it twice.
-/

namespace SuiteLint

namespace Text

theorem foldl_insertText_spec {seen : List String} (h : seen.Nodup) (texts : List String) :
    (texts.foldl insertText seen).Nodup ∧
      ∀ s, s ∈ texts.foldl insertText seen ↔ s ∈ seen ∨ s ∈ texts := by
  induction texts generalizing seen with
  | nil => exact ⟨h, by simp⟩
  | cons t texts ih =>
    obtain ⟨hnodup, hmem⟩ := ih (nodup_insertText h t)
    refine ⟨hnodup, fun s => ?_⟩
    rw [List.foldl_cons, hmem, mem_insertText, List.mem_cons, or_assoc]

theorem distinct_perm_dedup (texts : List String) : (distinct texts).Perm texts.dedup := by
  obtain ⟨hnodup, hmem⟩ := foldl_insertText_spec List.nodup_nil texts
  refine (List.perm_ext_iff_of_nodup hnodup texts.nodup_dedup).mpr fun s => ?_
  rw [hmem, List.mem_dedup]
  simp

end Text

/-! ## What the reports hold -/

namespace Reports

/-- The reports tell of given issues, each in its way. -/
structure TellOf (r : Reports) (issues : List Issue) : Prop where
  /-- The list of issues is complete. -/
  listed : r.issues = issues
  /-- The counts by rule add up to all issues. -/
  byRule : Tally.total r.byRule = issues.length
  /-- So do those by severity, -/
  bySeverity : Tally.total r.bySeverity = issues.length
  /-- with which the status is found: a `quality_gate` that lets nothing through counts all issues. -/
  gated : ({ r with gate := ⟨0, 0, 0⟩ } : Reports).settle.status = min 255 (r.status + issues.length)
  /-- The report by rule names every rule once, -/
  named_once : (r.ruleCounts.map (·.1)).Nodup
  /-- with the number of its issues, -/
  counted : ∀ name n, (name, n) ∈ r.ruleCounts ↔
    name ∈ issues.map Issue.fullName ∧ n = (issues.map Issue.fullName).count name
  /-- the most common rule first, and of equally common ones the one that was seen first. -/
  ranked : r.ruleCounts.Pairwise fun a b => b.2 < a.2 ∨ b.2 = a.2 ∧
    (issues.map Issue.fullName).idxOf a.1 < (issues.map Issue.fullName).idxOf b.1
  /-- Each rule has a line, and the counts stand in one column. -/
  shown : ∃ width, (∀ name ∈ issues.map Issue.fullName, name.length ≤ width) ∧
    r.byRuleText = "\nIssues by IDs:\n" ++
      if issues = [] then "No issues found"
      else "\n".intercalate (r.ruleCounts.map fun entry =>
        padTo width entry.1 ++ " : " ++ toString entry.2)
  /-- The files with issues are the different sources. -/
  files : r.sources.length = (issues.map (·.source)).dedup.length

variable {r : Reports} {names : List String}

theorem ranked_of_counts (h : r.byRule.Counts names) :
    r.ruleCounts.Pairwise fun a b =>
      b.2 < a.2 ∨ b.2 = a.2 ∧ names.idxOf a.1 < names.idxOf b.1 := by
  have hordered : r.byRule.Pairwise fun a b => names.idxOf a.1 < names.idxOf b.1 :=
    (List.pairwise_map (R := fun a b => names.idxOf a < names.idxOf b)).mp h.ordered
  have hsorted : r.ruleCounts.Pairwise fun a b => decide (b.2 ≤ a.2) = true ∧
      (decide (a.2 ≤ b.2) = true → names.idxOf a.1 < names.idxOf b.1) :=
    pairwise_mergeSort_of_pairwise
      (fun a b c hab hbc => by simp only [decide_eq_true_eq] at hab hbc ⊢; omega)
      (fun a b => by simp only [Bool.or_eq_true, decide_eq_true_eq]; omega) hordered
  refine hsorted.imp ?_
  intro a b ⟨hle, htie⟩
  simp only [decide_eq_true_eq] at hle htie
  rcases Nat.lt_or_eq_of_le hle with hlt | heq
  · exact Or.inl hlt
  · exact Or.inr ⟨heq, htie (Nat.le_of_eq heq.symm)⟩

theorem ruleCounts_perm (r : Reports) : r.ruleCounts.Perm r.byRule := List.mergeSort_perm _ _

theorem byRuleText_eq (r : Reports) :
    r.byRuleText = "\nIssues by IDs:\n" ++
      if r.ruleCounts = [] then "No issues found"
      else "\n".intercalate (r.ruleCounts.map fun entry =>
        padTo ((r.ruleCounts.map (·.1.length)).foldl max 0) entry.1 ++ " : " ++ toString entry.2) := by
  unfold byRuleText
  split
  · next h =>
    rw [h]
    rfl
  · next h => rw [if_neg h]

theorem shown_of_counts (h : r.byRule.Counts names) :
    ∃ width, (∀ name ∈ names, name.length ≤ width) ∧
      r.byRuleText = "\nIssues by IDs:\n" ++
        if names = [] then "No issues found"
        else "\n".intercalate (r.ruleCounts.map fun entry =>
          padTo width entry.1 ++ " : " ++ toString entry.2) := by
  have hkeys (name : String) : name ∈ r.ruleCounts.map (·.1) ↔ name ∈ names := by
    rw [(r.ruleCounts_perm.map (·.1)).mem_iff, h.mem_keys_iff]
  have hempty : r.ruleCounts = [] ↔ names = [] := by
    rw [← List.map_eq_nil_iff (f := (·.1)), List.eq_nil_iff_forall_not_mem,
      List.eq_nil_iff_forall_not_mem]
    simp only [hkeys]
  refine ⟨(r.ruleCounts.map (·.1.length)).foldl max 0, ?_, ?_⟩
  · intro name hname
    obtain ⟨entry, hentry, rfl⟩ := List.mem_map.mp ((hkeys name).mpr hname)
    have hlength : entry.1.length ∈ r.ruleCounts.map (·.1.length) :=
      List.mem_map.mpr ⟨entry, hentry, rfl⟩
    rw [List.foldl_max]
    exact Nat.le_trans (List.le_max?_getD_of_mem hlength) (Nat.le_max_right _ _)
  · rw [byRuleText_eq]
    simp only [hempty]

private theorem status_settle_of_closed_gate (r : Reports) :
    ({ r with gate := ⟨0, 0, 0⟩ } : Reports).settle.status =
      min 255 (r.status + Tally.total r.bySeverity) := by
  have hexcess (s : Severity) (n : Nat) : Gate.excess ⟨0, 0, 0⟩ s n = n := by
    have h := Gate.excess_eq ⟨0, 0, 0⟩ s n
    cases s <;> simp [Gate.limit] at h <;> omega
  simp only [settle, hexcess, Tally.total]

/-- Whatever the `quality_gate` is, reports that start empty tell of the issues they are given. -/
theorem tellOf_foldl_add (kinds : List String) (gate : Gate) (issues : List Issue) :
    (issues.foldl add { ofNames kinds with gate := gate }).TellOf issues := by
  have hrules := Tally.counts_ofList (issues.map Issue.fullName)
  have hseverities := Tally.counts_ofList (issues.map (·.severity))
  have hadd := foldl_add { ofNames kinds with gate := gate } issues
  generalize hr : issues.foldl add { ofNames kinds with gate := gate } = r at hadd
  have hbyRule : r.byRule = Tally.ofList (issues.map Issue.fullName) := by rw [hadd]; rfl
  have hbySeverity : r.bySeverity = Tally.ofList (issues.map (·.severity)) := by rw [hadd]; rfl
  have hsources : r.sources = Text.distinct (issues.map (·.source)) := by rw [hadd]; rfl
  rw [← hbyRule] at hrules
  rw [← hbySeverity] at hseverities
  refine ⟨?_, ?_, ?_, ?_, ?_, ?_, ranked_of_counts hrules, ?_, ?_⟩
  · rw [hadd]
    rfl
  · rw [hrules.total, List.length_map]
  · rw [hseverities.total, List.length_map]
  · rw [status_settle_of_closed_gate, hseverities.total, List.length_map]
  · exact (r.ruleCounts_perm.map (·.1)).nodup_iff.mpr hrules.nodup
  · intro name n
    rw [r.ruleCounts_perm.mem_iff, hrules.mem_iff]
  · obtain ⟨width, hwidth, htext⟩ := shown_of_counts hrules
    refine ⟨width, hwidth, ?_⟩
    rw [htext]
    simp only [List.map_eq_nil_iff]
  · rw [hsources, (Text.distinct_perm_dedup _).length_eq]

end Reports

/-! ## What a run tells -/

namespace Run

theorem tellAll_of_render (o : Options) {s : Session} (r : Reports) {issues : List Issue}
    {lines : List String}
    (h : List.Forall₂ (fun i line => i.render o.format s.project.cwd = .ok line) issues lines) :
    tellAll o s r issues = (s.writeAll o.output lines, .ok (issues.foldl Reports.add r)) := by
  induction issues generalizing s r lines with
  | nil =>
    cases h
    rfl
  | cons i issues ih =>
    cases h with
    | cons hline hrest =>
      rw [tellAll, tell, hline]
      exact ih _ (by simpa using hrest)

theorem exists_lines (format : String) (root : Path) {issues : List Issue}
    (h : ∀ i ∈ issues, ∃ line, i.render format root = .ok line) :
    ∃ lines, List.Forall₂ (fun i line => i.render format root = .ok line) issues lines := by
  induction issues with
  | nil => exact ⟨[], .nil⟩
  | cons i issues ih =>
    rw [List.forall_mem_cons] at h
    obtain ⟨line, hline⟩ := h.1
    obtain ⟨lines, hlines⟩ := ih h.2
    exact ⟨line :: lines, .cons hline hlines⟩

/-- With `--reports all`, and a `--format` in which every issue has a line, issues that are told one after the
other get as many lines, printed or behind what the output file holds, and all reports tell of just these
issues. -/
theorem reports_agree_on_issues (o : Options) (s : Session) (kinds : List String)
    (hall : "all" ∈ kinds) (gate : Gate) (issues : List Issue)
    (hformat : ∀ i ∈ issues, ∃ line, i.render o.format s.project.cwd = .ok line) :
    ∃ (after : Session) (told : Reports) (lines : List String),
      tellAll o s { Reports.ofNames kinds with gate := gate } issues = (after, .ok told) ∧
      List.Forall₂ (fun i line => i.render o.format s.project.cwd = .ok line) issues lines ∧
      (o.output = none → after.printed = s.printed ++ lines) ∧
      (∀ name file, o.output = some name → s.project.file? (Path.ofString name) = some file →
        (after.project.file? (Path.ofString name)).map (·.bytes) =
          some (file.bytes ++ Session.bytesOf lines)) ∧
      lines.length = issues.length ∧ told.active = ReportKind.all ∧ told.TellOf issues := by
  obtain ⟨lines, hlines⟩ := exists_lines o.format s.project.cwd hformat
  have htellOf := Reports.tellOf_foldl_add kinds gate issues
  refine ⟨_, _, lines, tellAll_of_render o _ hlines, hlines, ?_, ?_, hlines.length_eq.symm, ?_, htellOf⟩
  · intro hout
    rw [hout, Session.printed_writeAll]
  · intro name file hout hfile
    rw [hout, Session.file?_writeAll hfile]
  · rw [Reports.foldl_add]
    exact List.filter_eq_self.mpr fun kind _ => by simp [hall]

def threeIssues : List Issue :=
  [⟨"0401", "parsing-error", .error, 3, 1, 3, 1, "Robot Framework syntax error", "b.robot", []⟩,
   ⟨"0502", "too-few-calls-in-keyword", .warning, 5, 1, 5, 1, "Keyword has too few keywords", "a.robot", []⟩,
   ⟨"0502", "too-few-calls-in-keyword", .warning, 9, 1, 9, 1, "Keyword has too few keywords", "a.robot", []⟩]

def inEmptyDirectory : Session := ⟨⟨.directory [], ⟨"/", []⟩, [], [], fun _ => none⟩, []⟩

theorem reports_agree_on_issues_threeIssues :
    (∀ i ∈ threeIssues, ∃ line,
        i.render Options.standard.format inEmptyDirectory.project.cwd = .ok line) ∧
      ∃ (after : Session) (told : Reports),
        tellAll .standard inEmptyDirectory (.ofNames ["all"]) threeIssues = (after, .ok told) ∧
        after.printed.length = 3 ∧ told.issues.length = 3 ∧ Tally.total told.byRule = 3 ∧
        Tally.total told.bySeverity = 3 ∧ told.sources.length = 2 ∧
        ("W0502 (too-few-calls-in-keyword)", 2) ∈ told.ruleCounts ∧
        ("E0401 (parsing-error)", 1) ∈ told.ruleCounts := by
  have hformat : ∀ i ∈ threeIssues, ∃ line,
      i.render Options.standard.format inEmptyDirectory.project.cwd = .ok line := by
    have hsome : ∀ i ∈ threeIssues, (i.render Options.standard.format
        inEmptyDirectory.project.cwd).toOption.isSome = true := by decide +kernel
    intro i hi
    have hi := hsome i hi
    cases hrender : i.render Options.standard.format inEmptyDirectory.project.cwd with
    | ok line => exact ⟨line, rfl⟩
    | error e => simp [hrender, Except.toOption] at hi
  obtain ⟨after, told, lines, htold, -, hprinted, -, hlines, -, htellOf⟩ :=
    reports_agree_on_issues .standard inEmptyDirectory ["all"] (by decide) .standard threeIssues hformat
  refine ⟨hformat, after, told, htold, ?_, ?_, htellOf.byRule, htellOf.bySeverity, ?_, ?_, ?_⟩
  · rw [hprinted rfl]
    exact hlines
  · rw [htellOf.listed]
    rfl
  · rw [htellOf.files]
    decide
  · exact (htellOf.counted _ _).mpr (by decide +kernel)
  · exact (htellOf.counted _ _).mpr (by decide +kernel)

end Run

end SuiteLint
