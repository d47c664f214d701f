import SuiteLint.Report
import SuiteLint.Proofs.Tallies
import SuiteLint.Proofs.TextParts

/-!
# The status of a run

The status adds up, for each severity with a limit in `quality_gate`, by how much its issues exceed the limit,
to at most 255. It is given here in terms of the last entry for each severity and of the issues themselves.
-/

namespace SuiteLint

/-! ## Counting -/

namespace Tally

/-- A sum over the severities that were seen is one over all severities, if those that were not seen
add nothing to it. -/
theorem foldr_eq_foldr_all (f : Severity → Nat → Nat) (hf : ∀ s, f s 0 = 0) (t : Tally Severity)
    (h : (t.map (·.1)).Nodup) :
    t.foldr (fun entry n => f entry.1 entry.2 + n) 0 =
      Severity.all.foldr (fun s n => f s (t.count s) + n) 0 := by
  induction t with
  | nil => simp [Severity.all, count, hf]
  | cons entry t ih =>
    rw [List.map_cons, List.nodup_cons] at h
    obtain ⟨first, n⟩ := entry
    have hfirst : Tally.count t first = 0 := by
      rw [count, Lookup.eq_none_of_not_mem h.1]
      rfl
    have hcount (s : Severity) :
        Tally.count ((first, n) :: t) s = if s = first then n else Tally.count t s := by
      rw [count, List.lookup_cons]
      by_cases hs : s = first
      · simp [hs]
      · have hne : (s == first) = false := beq_eq_false_iff_ne.mpr hs
        simp [hs, hne, count]
    rw [List.foldr_cons, ih h.2]
    simp only [Severity.all, List.foldr_cons, List.foldr_nil, hcount]
    have hzero := hf first
    cases first <;> simp_all <;> omega

end Tally

/-! ## Limits -/

namespace Gate

/-- An entry gives a limit to a severity: it is the letter of the severity in either case, an equals
sign and a number. -/
def Sets (entry : List Char) (s : Severity) (n : Int) : Prop :=
  ∃ name count : List Char, entry = name ++ '=' :: count ∧ '=' ∉ name ∧
    Text.upper name = s.letter.toList ∧ Text.readInteger count = some n

def IsLastOf (entries : List (List Char)) (s : Severity) (old n : Int) : Prop :=
  (∃ before entry after, entries = before ++ entry :: after ∧ Sets entry s n ∧
    ∀ later ∈ after, ∀ m, ¬ Sets later s m) ∨
  (∀ entry ∈ entries, ∀ m, ¬ Sets entry s m) ∧ n = old

theorem limit_setLimit (g : Gate) (s other : Severity) (n : Int) :
    (g.setLimit s n).limit other = if other = s then n else g.limit other := by
  cases s <;> cases other <;> rfl

theorem find?_letter {name : List Char} {s : Severity} :
    (Severity.all.find? fun s => s.letter.toList == name) = some s ↔ name = s.letter.toList := by
  constructor
  · intro h
    have hname := List.find?_some h
    exact (beq_iff_eq.mp hname).symm
  · rintro rfl
    cases s <;> decide

private theorem limit_readLimit_of_sets (g : Gate) {entry : List Char} {s : Severity} {n : Int}
    (h : Sets entry s n) : (g.readLimit entry).limit s = n := by
  obtain ⟨name, count, hentry, hname, hletter, hcount⟩ := h
  have hcut := Text.cutAt_eq_some_iff.mpr ⟨hentry, hname⟩
  have hfind := find?_letter.mpr hletter
  simp only [readLimit, hcut, hfind, hcount, limit_setLimit, if_true]

theorem limit_readLimit_of_not_sets (g : Gate) {entry : List Char} {s : Severity}
    (h : ∀ n, ¬ Sets entry s n) : (g.readLimit entry).limit s = g.limit s := by
  unfold readLimit
  split
  · next name count hcut =>
    obtain ⟨hentry, hname⟩ := Text.cutAt_eq_some_iff.mp hcut
    split
    · next found n hfind hcount =>
      have hne : s ≠ found := by
        rintro rfl
        exact h n ⟨name, count, hentry, hname, find?_letter.mp hfind, hcount⟩
      rw [limit_setLimit, if_neg hne]
    · rfl
  · rfl

/-- Entries are taken in one after the other, so the last one that gives a limit stays. -/
theorem isLastOf_foldl (g : Gate) (entries : List (List Char)) (s : Severity) :
    IsLastOf entries s (g.limit s) ((entries.foldl readLimit g).limit s) := by
  induction entries generalizing g with
  | nil => exact Or.inr ⟨fun entry h => absurd h List.not_mem_nil, rfl⟩
  | cons entry entries ih =>
    rcases ih (g.readLimit entry) with ⟨before, last, after, hsplit, hlast, hafter⟩ | ⟨hnone, heq⟩
    · exact Or.inl ⟨entry :: before, last, after, by rw [hsplit, List.cons_append], hlast, hafter⟩
    · rw [List.foldl_cons, heq]
      by_cases hentry : ∃ n, Sets entry s n
      · obtain ⟨n, hn⟩ := hentry
        rw [limit_readLimit_of_sets g hn]
        exact Or.inl ⟨[], entry, entries, rfl, hn, hnone⟩
      · have hno : ∀ n, ¬ Sets entry s n := fun n hn => hentry ⟨n, hn⟩
        rw [limit_readLimit_of_not_sets g hno]
        refine Or.inr ⟨?_, rfl⟩
        intro other hother
        rcases List.mem_cons.mp hother with rfl | hmore
        · exact hno
        · exact hnone other hmore

def entriesOf (value : String) : List (List Char) := Text.splitAt ':' value.toList

private theorem foldl_read (g : Gate) (values : List String) :
    values.foldl read g = (values.flatMap entriesOf).foldl readLimit g := by
  induction values generalizing g with
  | nil => rfl
  | cons value values ih =>
    rw [List.foldl_cons, ih, List.flatMap_cons, List.foldl_append]
    rfl

theorem excess_eq (g : Gate) (s : Severity) (count : Nat) :
    (g.excess s count : Int) = if 0 ≤ g.limit s then max 0 (count - g.limit s) else 0 := by
  unfold excess
  split <;> split <;> omega

private theorem excess_zero (g : Gate) (s : Severity) : g.excess s 0 = 0 := by
  have h := g.excess_eq s 0
  split at h <;> omega

theorem excess_mono (g : Gate) (s : Severity) {count more : Nat} (h : count ≤ more) :
    g.excess s count ≤ g.excess s more := by
  have hcount := g.excess_eq s count
  have hmore := g.excess_eq s more
  by_cases hlimit : 0 ≤ g.limit s
  · rw [if_pos hlimit] at hcount hmore
    omega
  · rw [if_neg hlimit] at hcount hmore
    omega

end Gate

/-! ## Settings, issues and the status -/

namespace Reports

def countOf (issues : List Issue) (s : Severity) : Nat := issues.countP (·.severity = s)

theorem foldl_add (r : Reports) (issues : List Issue) :
    issues.foldl add r =
      { r with
        byRule := (issues.map Issue.fullName).foldl (fun t key => t.add key 1) r.byRule
        bySeverity := (issues.map (·.severity)).foldl (fun t key => t.add key 1) r.bySeverity
        issues := r.issues ++ issues
        sources := (issues.map (·.source)).foldl Text.insertText r.sources } := by
  induction issues generalizing r with
  | nil => simp
  | cons i issues ih =>
    rw [List.foldl_cons, ih]
    simp [add]

def statusOf (r : Reports) (issues : List Issue) : Nat := (issues.foldl add r).settle.status

def overSeverities (f : Severity → Int) : Int := Severity.all.foldr (fun s n => f s + n) 0

def Unused (r : Reports) : Prop := r.bySeverity = [] ∧ r.status = 0

namespace Unused

variable {r : Reports} (h : r.Unused) (issues : List Issue)

include h

theorem statusOf_eq :
    r.statusOf issues =
      min 255 (Severity.all.foldr (fun s n => r.gate.excess s (countOf issues s) + n) 0) := by
  have hadd := foldl_add r issues
  rw [h.1] at hadd
  have hcounts := Tally.counts_ofList (issues.map (·.severity))
  have hcount (s : Severity) : (Tally.ofList (issues.map (·.severity))).count s = countOf issues s := by
    rw [hcounts.count_eq, List.count_eq_countP, List.countP_map]
    rfl
  have hsum := Tally.foldr_eq_foldr_all r.gate.excess r.gate.excess_zero _ hcounts.nodup
  simp only [hcount] at hsum
  rw [← hsum, statusOf, hadd, settle, h.2, Nat.zero_add]
  rfl

private theorem statusOf_eq_min :
    (r.statusOf issues : Int) =
      min 255 (overSeverities fun s =>
        if 0 ≤ r.gate.limit s then max 0 (countOf issues s - r.gate.limit s) else 0) := by
  rw [h.statusOf_eq]
  simp only [overSeverities, Severity.all, List.foldr_cons, List.foldr_nil, ← Gate.excess_eq]
  omega

theorem statusOf_eq_zero_iff :
    r.statusOf issues = 0 ↔ ∀ s, 0 ≤ r.gate.limit s → countOf issues s ≤ r.gate.limit s := by
  have hzero : r.statusOf issues = 0 ↔ ∀ s, r.gate.excess s (countOf issues s) = 0 := by
    rw [h.statusOf_eq]
    constructor
    · intro hsum s
      simp only [Severity.all, List.foldr_cons, List.foldr_nil] at hsum
      cases s <;> omega
    · intro hnone
      simp [hnone, Severity.all]
  rw [hzero]
  apply forall_congr'
  intro s
  have hexcess := r.gate.excess_eq s (countOf issues s)
  by_cases hlimit : 0 ≤ r.gate.limit s
  · rw [if_pos hlimit] at hexcess
    omega
  · rw [if_neg hlimit] at hexcess
    omega

private theorem statusOf_perm {issues others : List Issue} (hperm : others.Perm issues) :
    r.statusOf others = r.statusOf issues := by
  have hcount (s : Severity) : countOf others s = countOf issues s := hperm.countP_eq _
  simp only [h.statusOf_eq, hcount]

theorem statusOf_sublist {issues more : List Issue} (hsub : issues.Sublist more) :
    r.statusOf issues ≤ r.statusOf more := by
  have hexcess (s : Severity) :
      r.gate.excess s (countOf issues s) ≤ r.gate.excess s (countOf more s) :=
    r.gate.excess_mono s hsub.countP_le
  have hinfo := hexcess .info
  have hwarning := hexcess .warning
  have herror := hexcess .error
  rw [h.statusOf_eq, h.statusOf_eq]
  simp only [Severity.all, List.foldr_cons, List.foldr_nil]
  omega

end Unused

theorem foldlM_configure (r : Reports) (calls : List (String × String))
    (h : ∀ call ∈ calls, call.1 = "quality_gate" ∨ call.1 = "quality_gates") :
    calls.foldlM (fun r call => r.configure .returnStatus call.1 call.2) r =
      .ok { r with gate := (calls.map (·.2)).foldl Gate.read r.gate } := by
  induction calls generalizing r with
  | nil => rfl
  | cons call calls ih =>
    have hcall : r.configure .returnStatus call.1 call.2 =
        .ok { r with gate := r.gate.read call.2 } := by
      have hparam := h call List.mem_cons_self
      unfold configure
      rw [if_pos]
      simpa using hparam
    rw [List.foldlM_cons, hcall]
    exact ih _ fun other hother => h other (List.mem_cons_of_mem call hother)

/-- After settings of `quality_gate`, the limit of each severity is that of the last entry that gives it one,
or the standard one. The status is the sum of the excesses, at most 255. So it is zero exactly if no limit is
exceeded, does not depend on the order of the issues, and never falls when one is added. -/
theorem status_of_gate_and_issues (names : List String) (calls : List (String × String))
    (hcalls : ∀ call ∈ calls, call.1 = "quality_gate" ∨ call.1 = "quality_gates") :
    ∃ r : Reports,
      calls.foldlM (fun r call => r.configure .returnStatus call.1 call.2) (ofNames names) = .ok r ∧
      (∀ s, Gate.IsLastOf (calls.flatMap fun call => Gate.entriesOf call.2) s
        (Gate.standard.limit s) (r.gate.limit s)) ∧
      ∀ issues : List Issue,
        (r.statusOf issues : Int) =
          min 255 (overSeverities fun s =>
            if 0 ≤ r.gate.limit s then max 0 (countOf issues s - r.gate.limit s) else 0) ∧
        r.statusOf issues ≤ 255 ∧
        (r.statusOf issues = 0 ↔ ∀ s, 0 ≤ r.gate.limit s → countOf issues s ≤ r.gate.limit s) ∧
        (∀ others : List Issue, others.Perm issues → r.statusOf others = r.statusOf issues) ∧
        ∀ (before after : List Issue) (i : Issue), issues = before ++ after →
          r.statusOf issues ≤ r.statusOf (before ++ i :: after) := by
  refine ⟨_, foldlM_configure (ofNames names) calls hcalls, ?_, ?_⟩
  · intro s
    have hlast := Gate.isLastOf_foldl Gate.standard (calls.flatMap fun call => Gate.entriesOf call.2) s
    have hread := Gate.foldl_read Gate.standard (calls.map (·.2))
    rw [List.flatMap_map] at hread
    rw [← hread] at hlast
    exact hlast
  · intro issues
    have hunused : Unused { ofNames names with
        gate := (calls.map (·.2)).foldl Gate.read (ofNames names).gate } := ⟨rfl, rfl⟩
    refine ⟨hunused.statusOf_eq_min issues, ?_, hunused.statusOf_eq_zero_iff issues, ?_, ?_⟩
    · rw [hunused.statusOf_eq]
      exact Nat.min_le_left _ _
    · intro others hperm
      exact hunused.statusOf_perm hperm
    · intro before after i hsplit
      apply hunused.statusOf_sublist
      rw [hsplit]
      exact (List.sublist_cons_self i after).append_left before

def gateCalls : List (String × String) :=
  [("quality_gates", "e=1:W=many:x=3"), ("quality_gate", "i= +0 :E=2")]

def issueOf (s : Severity) : Issue := ⟨"0000", "some-rule", s, 1, 1, 1, 1, "", "a.robot", []⟩

theorem status_of_gate_and_issues_gateCalls :
    (∀ call ∈ gateCalls, call.1 = "quality_gate" ∨ call.1 = "quality_gates") ∧
      ∃ r : Reports,
        gateCalls.foldlM (fun r call => r.configure .returnStatus call.1 call.2)
          (ofNames ["return_status"]) = .ok r ∧
        r.gate = ⟨2, 0, 0⟩ ∧
        Gate.IsLastOf (gateCalls.flatMap fun call => Gate.entriesOf call.2) .error 0 2 ∧
        r.statusOf (List.replicate 4 (issueOf .error) ++ [issueOf .info]) = 3 ∧
        r.statusOf (issueOf .info :: List.replicate 4 (issueOf .error)) = 3 ∧
        r.statusOf (List.replicate 300 (issueOf .warning)) ≤ 255 := by
  have hcalls : ∀ call ∈ gateCalls, call.1 = "quality_gate" ∨ call.1 = "quality_gates" := by decide
  obtain ⟨r, hr, hlimit, hstatus⟩ := status_of_gate_and_issues ["return_status"] gateCalls hcalls
  have hgate : r.gate = ⟨2, 0, 0⟩ := by
    rw [foldlM_configure _ _ hcalls] at hr
    rw [← Except.ok.inj hr]
    decide +kernel
  obtain ⟨hsum, -, -, hperm, -⟩ := hstatus (List.replicate 4 (issueOf .error) ++ [issueOf .info])
  have hthree : r.statusOf (List.replicate 4 (issueOf .error) ++ [issueOf .info]) = 3 := by
    rw [hgate] at hsum
    exact Int.ofNat.inj (hsum.trans (by decide))
  refine ⟨hcalls, r, hr, hgate, ?_, hthree, ?_, (hstatus _).2.1⟩
  · have herror := hlimit .error
    rw [hgate] at herror
    exact herror
  · exact (hperm _ (@List.perm_append_comm _ [issueOf .info] _)).trans hthree

end Reports

end SuiteLint
