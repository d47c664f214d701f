import SuiteLint.Proofs.NameTokens
import SuiteLint.Proofs.SettingNames

/-!
# Calls after [Return]

The check reads the body of a keyword once, and keeps the last [Return] and whether a call came after one. So
it does not see the calls inside FOR and IF, and reports the last [Return] even where no call follows.
-/

namespace SuiteLint

namespace Check.Definition

/-! ## What is kept of a body -/

def GoesOn (ss : List Statement) : Prop :=
  ∃ r c, [r, c].Sublist ss ∧ r.kind = .returnSetting ∧ c.kind = .keywordCall

theorem goesOn_iff (ss : List Statement) : GoesOn ss ↔
    ¬ ss.Pairwise fun r c => ¬ (r.kind = .returnSetting ∧ c.kind = .keywordCall) := by
  rw [List.pairwise_iff_forall_sublist, GoesOn]
  grind

instance (ss : List Statement) : Decidable (GoesOn ss) := decidable_of_iff _ (goesOn_iff ss).symm

theorem GoesOn.mono {ss more : List Statement} (h : GoesOn ss) (hsub : ss.Sublist more) : GoesOn more := by
  obtain ⟨r, c, hpair, hkinds⟩ := h
  exact ⟨r, c, hpair.trans hsub, hkinds⟩

private theorem goesOn_append_singleton {ss : List Statement} {s : Statement} :
    GoesOn (ss ++ [s]) ↔
      GoesOn ss ∨ s.kind = .keywordCall ∧ ∃ r ∈ ss, r.kind = .returnSetting := by
  rw [goesOn_iff, goesOn_iff, List.pairwise_append]
  simp only [List.pairwise_singleton, List.mem_singleton, forall_eq, true_and]
  grind

def lastReturn? (ss : List Statement) : Option Statement :=
  ss.reverse.find? (·.kind = .returnSetting)

private theorem lastReturn?_append_singleton (ss : List Statement) (s : Statement) :
    lastReturn? (ss ++ [s]) = if s.kind = .returnSetting then some s else lastReturn? ss := by
  rw [lastReturn?, List.reverse_append, List.reverse_singleton, List.singleton_append, List.find?_cons]
  by_cases h : s.kind = .returnSetting <;> simp [h, lastReturn?]

theorem isSome_lastReturn?_iff {ss : List Statement} :
    (lastReturn? ss).isSome = true ↔ ∃ r ∈ ss, r.kind = .returnSetting := by
  simp [lastReturn?]

/-- What is kept after reading statements: the last [Return], and whether a call came after one. -/
structure Progress.Follows (p : Progress) (ss : List Statement) : Prop where
  setting : p.setting = lastReturn? ss
  callAfter : p.callAfter = true ↔ GoesOn ss

def OnStatement (f : Finding) : Prop :=
  (f.rule = .keywordAfterReturnFrom ∨ f.rule = .emptyReturn) ∧ f.args = []

theorem Progress.Follows.step {p q : Progress} {ss : List Statement} (h : p.Follows ss) {s : Statement}
    {here : List Finding} (hstep : p.step s = .ok (here, q)) :
    q.Follows (ss ++ [s]) ∧ ∀ f ∈ here, OnStatement f := by
  have hlast := lastReturn?_append_singleton ss s
  have hgoes := @goesOn_append_singleton ss s
  unfold Progress.step at hstep
  split at hstep
  · next hkind =>
    obtain ⟨rfl, rfl⟩ := Prod.mk.inj (Except.ok.inj hstep)
    refine ⟨⟨by rw [hlast, if_pos hkind], ?_⟩, fun f hf => ?_⟩
    · rw [hgoes, ← h.callAfter]
      simp [hkind]
    · split at hf
      · rw [List.mem_singleton.mp hf]
        exact ⟨Or.inr rfl, rfl⟩
      · cases hf
  · next hkind =>
    have hread : q.setting = p.setting ∧ q.callAfter = (p.callAfter || p.setting.isSome) ∧
        ∀ f ∈ here, OnStatement f := by
      dsimp only at hstep
      split at hstep
      · obtain ⟨t, -, hrest⟩ := exists_of_bind_eq_ok hstep
        obtain ⟨rfl, rfl⟩ := Prod.mk.inj (Except.ok.inj hrest)
        exact ⟨rfl, rfl, List.forall_mem_singleton.mpr ⟨Or.inl rfl, rfl⟩⟩
      · obtain ⟨rfl, rfl⟩ := Prod.mk.inj (Except.ok.inj hstep)
        exact ⟨rfl, rfl, fun f hf => absurd hf List.not_mem_nil⟩
    obtain ⟨hsetting, hafter, hfound⟩ := hread
    refine ⟨⟨?_, ?_⟩, hfound⟩
    · rw [hsetting, hlast, if_neg (by rw [hkind]; decide)]
      exact h.setting
    · rw [hgoes, hafter, ← h.callAfter, ← isSome_lastReturn?_iff, ← h.setting, Bool.or_eq_true]
      simp [hkind]
  · next hreturn hcall =>
    obtain ⟨rfl, rfl⟩ := Prod.mk.inj (Except.ok.inj hstep)
    refine ⟨⟨?_, ?_⟩, fun f hf => absurd hf List.not_mem_nil⟩
    · rw [hlast, if_neg hreturn]
      exact h.setting
    · rw [hgoes, ← h.callAfter]
      exact (or_iff_left fun hkind => hcall hkind.1).symm

theorem Progress.Follows.steps {p q : Progress} {ss : List Statement} (h : p.Follows ss)
    {ts : List Statement} {findings : List Finding} (hsteps : p.steps ts = .ok (findings, q)) :
    q.Follows (ss ++ ts) ∧ ∀ f ∈ findings, OnStatement f := by
  induction ts generalizing p ss findings with
  | nil =>
    obtain ⟨rfl, rfl⟩ := Prod.mk.inj (Except.ok.inj hsteps)
    exact ⟨by simpa using h, fun f hf => absurd hf List.not_mem_nil⟩
  | cons s ts ih =>
    obtain ⟨⟨here, p'⟩, hstep, hrest⟩ := exists_of_bind_eq_ok hsteps
    obtain ⟨⟨more, p''⟩, hmore, hok⟩ := exists_of_bind_eq_ok hrest
    obtain ⟨rfl, rfl⟩ := Prod.mk.inj (Except.ok.inj hok)
    obtain ⟨hnext, hhere⟩ := h.step hstep
    obtain ⟨hlast, hfound⟩ := ih hnext hmore
    rw [List.append_assoc, List.singleton_append] at hlast
    exact ⟨hlast, List.forall_mem_append.mpr ⟨hhere, hfound⟩⟩

theorem follows_start : Progress.start.Follows [] := ⟨rfl, by simp [Progress.start, goesOn_iff]⟩

/-! ## The setting that is reported -/

/-- The [Return] that is reported of a body, and what follows it: the last one of the body, if a call of the
body comes after one. -/
structure PointsAt (body : List Node) (r : Statement) (after : List Node) : Prop where
  split : ∃ before, body = before ++ .leaf r :: after
  isReturn : r.kind = .returnSetting
  last : ∀ n ∈ after, n.isStatement .returnSetting = false
  goesOn : GoesOn (body.filterMap Node.statement?)

def late? (body : List Node) : Option Statement :=
  if GoesOn (body.filterMap Node.statement?) then lastReturn? (body.filterMap Node.statement?) else none

theorem lastReturn?_eq_some_iff {body : List Node} {r : Statement} :
    lastReturn? (body.filterMap Node.statement?) = some r ↔
      ∃ before after, body = before ++ .leaf r :: after ∧ r.kind = .returnSetting ∧
        ∀ n ∈ after, n.isStatement .returnSetting = false := by
  have hfind : lastReturn? (body.filterMap Node.statement?) =
      (body.reverse.find? (·.isStatement .returnSetting)).bind Node.statement? := by
    rw [lastReturn?, ← List.filterMap_reverse, List.find?_filterMap]
    congr 2
    funext n
    cases n <;> rfl
  rw [hfind, Option.bind_eq_some_iff]
  simp only [List.find?_eq_some_iff_append]
  constructor
  · rintro ⟨n, ⟨hn, after, before, hsplit, hafter⟩, hr⟩
    cases n with
    | block => cases hr
    | leaf st =>
      obtain rfl := Option.some.inj hr
      refine ⟨before.reverse, after.reverse, ?_, of_decide_eq_true hn, fun n hn => ?_⟩
      · rw [← List.reverse_reverse body, hsplit]
        simp
      · simpa using hafter n (List.mem_reverse.mp hn)
  · rintro ⟨before, after, rfl, hr, hafter⟩
    refine ⟨.leaf r, ⟨decide_eq_true hr, after.reverse, before.reverse, by simp, fun n hn => ?_⟩, rfl⟩
    simpa using hafter n (List.mem_reverse.mp hn)

theorem late?_eq_some_iff {body : List Node} {r : Statement} :
    late? body = some r ↔ ∃ after, PointsAt body r after := by
  rw [late?]
  constructor
  · intro h
    split at h
    · next hgoes =>
      obtain ⟨before, after, hsplit, hr, hlast⟩ := lastReturn?_eq_some_iff.mp h
      exact ⟨after, ⟨before, hsplit⟩, hr, hlast, hgoes⟩
    · cases h
  · rintro ⟨after, ⟨before, hsplit⟩, hr, hlast, hgoes⟩
    rw [if_pos hgoes, lastReturn?_eq_some_iff]
    exact ⟨before, after, hsplit, hr, hlast⟩

theorem exists_pointsAt_iff {body : List Node} :
    (∃ r after, PointsAt body r after) ↔ GoesOn (body.filterMap Node.statement?) := by
  constructor
  · rintro ⟨r, after, h⟩
    exact h.goesOn
  · intro hgoes
    obtain ⟨r, c, hpair, hr, -⟩ := id hgoes
    have hsome := isSome_lastReturn?_iff.mpr ⟨r, hpair.subset List.mem_cons_self, hr⟩
    obtain ⟨last, hlast⟩ := Option.isSome_iff_exists.mp hsome
    exact ⟨last, late?_eq_some_iff.mp (by rw [late?, if_pos hgoes, hlast])⟩

/-! ## Calls at any depth -/

def allStatements (body : List Node) : List Statement :=
  (Node.visitedUntilAll (fun _ => false) body).filterMap Node.statement?

theorem allStatements_append (body more : List Node) :
    allStatements (body ++ more) = allStatements body ++ allStatements more := by
  rw [allStatements, Node.visitedUntilAll_append, List.filterMap_append]
  rfl

theorem sublist_allStatements (body : List Node) :
    (body.filterMap Node.statement?).Sublist (allStatements body) := by
  induction body with
  | nil => exact List.Sublist.refl _
  | cons n body ih =>
    have hcons := allStatements_append [n] body
    rw [List.singleton_append] at hcons
    rw [hcons, ← List.singleton_append, List.filterMap_append]
    refine List.Sublist.append ?_ ih
    cases n with
    | leaf st => exact List.Sublist.refl _
    | block => exact List.nil_sublist _

def HasCall (body : List Node) : Prop := ∃ c ∈ allStatements body, c.kind = .keywordCall

private theorem HasCall.append {body : List Node} (h : HasCall body) (before : List Node) :
    HasCall (before ++ body) := by
  obtain ⟨c, hc, hkind⟩ := h
  exact ⟨c, by rw [allStatements_append]; exact List.mem_append_right _ hc, hkind⟩

/-- A keyword is reported exactly if a call at any depth comes after a [Return], and what is reported is a
[Return] with a call after it. -/
def PointsRight (body : List Node) : Prop :=
  ((∃ r after, PointsAt body r after) ↔ GoesOn (allStatements body)) ∧
    ∀ r after, PointsAt body r after → HasCall after

theorem pointsRight_iff (body : List Node) :
    PointsRight body ↔ (GoesOn (allStatements body) →
      GoesOn (body.filterMap Node.statement?) ∧
        ∀ before r after, body = before ++ .leaf r :: after → r.kind = .returnSetting →
          HasCall after) := by
  rw [PointsRight, exists_pointsAt_iff]
  constructor
  · rintro ⟨hiff, hright⟩ hall
    refine ⟨hiff.mpr hall, fun before r after hsplit hr => ?_⟩
    -- From any setting on, there is a last one, and that is the one reported.
    have hsome : (lastReturn? ((.leaf r :: after).filterMap Node.statement?)).isSome = true :=
      isSome_lastReturn?_iff.mpr ⟨r, List.mem_cons_self, hr⟩
    obtain ⟨last, hlast⟩ := Option.isSome_iff_exists.mp hsome
    obtain ⟨between, rest, hrest, hkind, hnone⟩ := lastReturn?_eq_some_iff.mp hlast
    have hcall := hright last rest
      ⟨⟨before ++ between, by rw [hsplit, hrest, List.append_assoc]⟩, hkind, hnone, hiff.mpr hall⟩
    cases between with
    | nil =>
      obtain ⟨-, rfl⟩ := List.cons.inj hrest
      exact hcall
    | cons n between =>
      obtain ⟨-, rfl⟩ := List.cons.inj hrest
      exact (hcall.append [.leaf last]).append between
  · intro h
    refine ⟨⟨fun hown => hown.mono (sublist_allStatements body), fun hall => (h hall).1⟩, ?_⟩
    rintro r after ⟨⟨before, hsplit⟩, hr, -, hgoes⟩
    exact (h (hgoes.mono (sublist_allStatements body))).2 before r after hsplit hr

/-! ## What is found -/

def returnFinding (r : Statement) : Finding :=
  found .keywordAfterReturn [] (r.dataTokens.head?.elim 1 (anchor ·.line))
    (r.dataTokens.head?.elim 0 (·.column) + 1)

def returnEntry (r : Statement) : String × String × Int × Int :=
  ("0901", "[Return] is not defined at the end of keyword. Note that [Return] does not return from " ++
    "keyword but only set returned variables", r.dataTokens.head?.elim 1 (anchor ·.line),
    r.dataTokens.head?.elim 0 (·.column) + 1)

private theorem entry_returnFinding (r : Statement) : (returnFinding r).entry = returnEntry r := by
  rw [Finding.entry, Finding.message_of_plain (f := returnFinding r) String.ofList_append.symm
    rfl rfl]
  rfl

theorem fills_of_mem_keys {f : Finding} (hkey : f.rule ∈ Checker.returns.keys) (hargs : f.args = []) :
    f.rule ∈ Checker.returns.keys ∧ f.Fills := by
  refine ⟨hkey, Finding.fills_of_plain (fun key hkey => ?_) ⟨hkey, hargs⟩⟩
  simp only [Checker.keys, List.mem_cons, List.not_mem_nil, or_false] at hkey
  rcases hkey with rfl | rfl | rfl
  · exact RuleKey.places_of_template String.ofList_append.symm (by decide +kernel)
  · exact RuleKey.places_of_template rfl rfl
  · exact RuleKey.places_of_template rfl rfl

/-- The findings of a keyword: those on single statements, and the one on the [Return] that is reported. -/
theorem returns_spec {n : Node} {findings : List Finding} (h : returns n = .ok findings) :
    ∃ others, findings = others ++ (late? n.body).toList.map returnFinding ∧
      ∀ f ∈ others, OnStatement f := by
  obtain ⟨⟨here, p⟩, hsteps, hrest⟩ := exists_of_bind_eq_ok h
  obtain ⟨⟨hsetting, hcall⟩, hfound⟩ := follows_start.steps hsteps
  rw [List.nil_append] at hsetting hcall
  refine ⟨here, ?_, hfound⟩
  simp only at hrest
  split at hrest
  · next r hafter hr =>
    obtain ⟨t, ht, hok⟩ := exists_of_bind_eq_ok hrest
    have hlate : late? n.body = some r := by
      rw [late?, if_pos (hcall.mp hafter), ← hsetting, hr]
    have hfinding : returnFinding r =
        found .keywordAfterReturn [] (anchor t.line) (t.column + 1) := by
      rw [returnFinding, Naming.firstData_eq_ok_iff.mp ht]
      rfl
    rw [hlate, ← Except.ok.inj hok, ← hfinding]
    rfl
  · next hnone =>
    have hlate : late? n.body = none := by
      rw [late?]
      split
      · next hgoes =>
        cases hr : p.setting with
        | none => rw [← hsetting, hr]
        | some r => exact (hnone r (hcall.mpr hgoes) hr).elim
      · rfl
    rw [hlate, ← Except.ok.inj hrest]
    exact (List.append_nil here).symm

theorem among_returns {n : Node} {findings : List Finding} (h : returns n = .ok findings) :
    RuleKey.keywordAfterReturn.among findings = (late? n.body).toList.map returnFinding := by
  obtain ⟨others, rfl, hothers⟩ := returns_spec h
  have hnone : RuleKey.keywordAfterReturn.among others = [] :=
    RuleKey.among_eq_nil fun f hf => by
      obtain ⟨hrule | hrule, -⟩ := hothers f hf <;> simp [hrule]
  rw [RuleKey.among_append, hnone, List.nil_append]
  cases late? n.body <;> rfl

theorem fills_returns {n : Node} {findings : List Finding} (h : returns n = .ok findings) :
    ∀ f ∈ findings, f.rule ∈ Checker.returns.keys ∧ f.Fills := by
  obtain ⟨others, rfl, hothers⟩ := returns_spec h
  rw [List.forall_mem_append]
  refine ⟨fun f hf => ?_, fun f hf => ?_⟩
  · obtain ⟨hrule, hargs⟩ := hothers f hf
    have hkey : f.rule ∈ Checker.returns.keys := by
      obtain hrule | hrule := hrule <;> rw [hrule] <;> decide
    exact fills_of_mem_keys hkey hargs
  · obtain ⟨r, -, rfl⟩ := List.mem_map.mp hf
    exact fills_of_mem_keys (f := returnFinding r) (show RuleKey.keywordAfterReturn ∈ _ by decide) rfl

/-! ## Where the check goes through -/

def HasTokens (ss : List Statement) : Prop :=
  ∀ s ∈ ss, s.kind = .returnSetting ∨ s.kind = .keywordCall → s.dataTokens ≠ []

instance (ss : List Statement) : Decidable (HasTokens ss) := by
  unfold HasTokens
  infer_instance

theorem exists_step {p : Progress} {s : Statement} (h : s.kind = .keywordCall → s.dataTokens ≠ []) :
    ∃ out, p.step s = .ok out := by
  unfold Progress.step
  split
  · exact ⟨_, rfl⟩
  · next hkind =>
    obtain ⟨t, ht⟩ := (Naming.exists_firstData_iff s).mpr (h hkind)
    rw [ht]
    dsimp only
    split <;> exact ⟨_, rfl⟩
  · exact ⟨_, rfl⟩

theorem exists_steps {p : Progress} {ss : List Statement} (h : HasTokens ss) :
    ∃ out, p.steps ss = .ok out := by
  induction ss generalizing p with
  | nil => exact ⟨_, rfl⟩
  | cons s ss ih =>
    obtain ⟨hs, hss⟩ := List.forall_mem_cons.mp h
    obtain ⟨⟨here, p'⟩, hstep⟩ := @exists_step p s fun hkind => hs (Or.inr hkind)
    obtain ⟨⟨more, p''⟩, hsteps⟩ := ih (p := p') hss
    refine ⟨(here ++ more, p''), ?_⟩
    simp only [Progress.steps, hstep, hsteps, bind, Except.bind]
    rfl

theorem exists_returns {n : Node} (h : HasTokens (n.body.filterMap Node.statement?)) :
    ∃ findings, returns n = .ok findings := by
  obtain ⟨⟨here, p⟩, hsteps⟩ := exists_steps (p := .start) h
  have hsetting := (follows_start.steps hsteps).1.setting
  rw [returns, hsteps]
  dsimp only [bind, Except.bind]
  split
  · next r _ hr =>
    rw [hr, List.nil_append] at hsetting
    have hmem := List.mem_reverse.mp (List.mem_of_find?_eq_some hsetting.symm)
    have hkind := List.find?_some hsetting.symm
    obtain ⟨t, ht⟩ :=
      (Naming.exists_firstData_iff r).mpr (h r hmem (Or.inl (of_decide_eq_true hkind)))
    rw [ht]
    exact ⟨_, rfl⟩
  · exact ⟨_, rfl⟩

end Check.Definition

namespace Options

open Check.Definition

theorem scan_returns (o : Options) {host : Host} {notes : List String} {s : Setup}
    (h : o.setup host = (notes, .ok s)) (hon : s.linter.registry.enables "0901" = true)
    (memory : Memory) (subject : Subject) :
    ((∀ n ∈ subject.document.outermost (· = .keyword), HasTokens (n.body.filterMap Node.statement?)) →
        ∃ issues, (s.linter.withMemory memory).scan .returns subject = .ok issues) ∧
      ∀ issues, (s.linter.withMemory memory).scan .returns subject = .ok issues →
        (Issue.among [.keywordAfterReturn] issues).map Issue.entry =
          (subject.document.outermost (· = .keyword)).flatMap
            (fun n => (late? n.body).toList.map returnEntry) := by
  have hkey : RuleKey.keywordAfterReturn ∈ Checker.returns.keys := by decide
  have hrun : s.linter.finds host .returns .keywordAfterReturn subject memory =
      checkReturns subject.document := rfl
  obtain ⟨hgoes, hentries⟩ := o.scan_iff h memory hkey hon hrun
    fun findings hok => forall_mem_gather (fun n _ here hhere => fills_returns hhere) hok
  refine ⟨fun htokens => hgoes.mpr (exists_gather_iff.mpr fun n hn => exists_returns (htokens n hn)),
    fun issues hissues => ?_⟩
  obtain ⟨findings, hok, hreported⟩ := hentries issues hissues
  rw [hreported, RuleKey.among_gather (fun n _ here => among_returns) hok, List.map_flatMap]
  apply List.flatMap_congr
  intro n _
  rw [List.map_map]
  exact List.map_congr_left fun r _ => entry_returnFinding r

/-- Where keyword-after-return (0901) is on, the last [Return] of each keyword is reported if a call of its
body comes after a [Return]. That is a [Return] with a call after it, and no keyword with one is missed,
exactly if wherever a call at any depth comes after a [Return], a call of the body does, and no [Return] of
the body is followed by no call. -/
theorem late_returns_iff (o : Options) {host : Host} {notes : List String} {s : Setup}
    (h : o.setup host = (notes, .ok s)) (hon : s.linter.registry.enables "0901" = true)
    (memory : Memory) (subject : Subject) :
    ((∀ n ∈ subject.document.outermost (· = .keyword), HasTokens (n.body.filterMap Node.statement?)) →
        ∃ issues, (s.linter.withMemory memory).scan .returns subject = .ok issues) ∧
      ∀ issues, (s.linter.withMemory memory).scan .returns subject = .ok issues →
        (Issue.among [.keywordAfterReturn] issues).map Issue.entry =
            (subject.document.outermost (· = .keyword)).flatMap
              (fun n => (late? n.body).toList.map returnEntry) ∧
          ∀ n ∈ subject.document.outermost (· = .keyword),
            (∀ r, late? n.body = some r ↔ ∃ after, PointsAt n.body r after) ∧
            (PointsRight n.body ↔ (GoesOn (allStatements n.body) →
              GoesOn (n.body.filterMap Node.statement?) ∧
                ∀ before r after, n.body = before ++ .leaf r :: after → r.kind = .returnSetting →
                  HasCall after)) := by
  obtain ⟨hgoes, hreported⟩ := o.scan_returns h hon memory subject
  exact ⟨hgoes, fun issues hissues => ⟨hreported issues hissues,
    fun n _ => ⟨fun r => late?_eq_some_iff, pointsRight_iff n.body⟩⟩⟩

end Options

def Statement.returning (line : Int) : Statement :=
  ⟨.returnSetting, [⟨.returnSetting, "[Return]", line, 4⟩, ⟨.argument, "$\x7bx\x7d", line, 16⟩], []⟩

def Subject.definingBody (body : List Node) : Subject :=
  .defining (.block .keyword ⟨.keywordName, [⟨.keywordName, "Kw", 2, 0⟩], []⟩ body none none [])

def Node.returnThenLoop : List Node :=
  [.leaf (.returning 3), .block .for_ ⟨.forHeader, [⟨.for_, "FOR", 4, 4⟩], []⟩ [callOn 5] none
    (some ⟨.end_, [⟨.end_, "END", 6, 4⟩], []⟩) []]

def Node.returnTwice : List Node := [.leaf (.returning 3), callOn 4, .leaf (.returning 5)]

namespace Options

open Check.Definition

theorem late_returns_iff_followed :
    ∃ (s : Setup) (issues : List Issue), standard.setup .plain = ([], .ok s) ∧
      s.linter.registry.enables "0901" = true ∧
      (s.linter.withMemory .blank).scan .returns (.definingBody [.leaf (.returning 3), .callOn 4]) =
        .ok issues ∧
      (Issue.among [.keywordAfterReturn] issues).map Issue.entry =
        [("0901", "[Return] is not defined at the end of keyword. Note that [Return] does not return " ++
          "from keyword but only set returned variables", 3, 5)] := by
  have hsetup := setup_standard .plain
  have hon := enables_standard hsetup .keywordAfterReturn
  obtain ⟨hgoes, hreported⟩ := late_returns_iff standard hsetup hon .blank
    (.definingBody [.leaf (.returning 3), .callOn 4])
  obtain ⟨issues, hissues⟩ := hgoes (by decide)
  exact ⟨_, issues, hsetup, hon, hissues, (hreported issues hissues).1.trans (by decide +kernel)⟩

/-- A call in a FOR is passed over, and of two [Return] the one that no call follows is reported. -/
theorem late_returns_misplaced :
    ∃ (s : Setup) (looped twice : List Issue), standard.setup .plain = ([], .ok s) ∧
      s.linter.registry.enables "0901" = true ∧
      ((s.linter.withMemory .blank).scan .returns (.definingBody Node.returnThenLoop) = .ok looped ∧
        (Issue.among [.keywordAfterReturn] looped).map Issue.entry = [] ∧
        GoesOn (allStatements Node.returnThenLoop)) ∧
      (s.linter.withMemory .blank).scan .returns (.definingBody Node.returnTwice) = .ok twice ∧
        (Issue.among [.keywordAfterReturn] twice).map Issue.entry = [returnEntry (.returning 5)] ∧
        PointsAt Node.returnTwice (.returning 5) [] ∧ ¬ HasCall [] := by
  have hsetup := setup_standard .plain
  have hon := enables_standard hsetup .keywordAfterReturn
  obtain ⟨hlooped, hnone⟩ := scan_returns standard hsetup hon .blank
    (.definingBody Node.returnThenLoop)
  obtain ⟨htwice, hlast⟩ := scan_returns standard hsetup hon .blank (.definingBody Node.returnTwice)
  obtain ⟨looped, hlooped⟩ := hlooped (by decide)
  obtain ⟨twice, htwice⟩ := htwice (by decide)
  refine ⟨_, looped, twice, hsetup, hon, ⟨hlooped, (hnone looped hlooped).trans ?_, by decide⟩,
    htwice, (hlast twice htwice).trans ?_, ?_, ?_⟩
  · decide
  · decide
  · exact ⟨⟨[.leaf (.returning 3), .callOn 4], rfl⟩, rfl, List.forall_mem_nil _, by decide⟩
  · rintro ⟨c, hc, -⟩
    cases hc

end Options

end SuiteLint
