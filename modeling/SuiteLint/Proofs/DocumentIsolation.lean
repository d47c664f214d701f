import SuiteLint.Proofs.SelectionFilter

/-!
# One document leaves no mark on the next

The checkers live longer than a document, and three of them never clear what they remember. With documents
as a reader of suite files makes them, this is never seen: a document is checked as if it were the first,
also if some of the checks before it failed.
-/

namespace SuiteLint

def Document.outsideDefinitions (d : Document) : List Node :=
  d.sections.flatMap (·.visitedUntil Check.Documentation.isDefinition)

def Node.IsQuiet (n : Node) : Prop :=
  n.isStatement .keywordCall = false ∧ n.isBlock .for_ = false ∧ n.isBlock .forLoop = false

/-- What every reader of suite files ensures: calls and FOR loops lie in test cases and keywords, and a
documentation has a token. -/
structure Document.IsRegular (d : Document) : Prop where
  quiet : ∀ n ∈ d.outsideDefinitions, n.IsQuiet
  worded : ∀ s ∈ d.statementsOf .documentation, s.tokens ≠ []

instance (n : Node) : Decidable n.IsQuiet := inferInstanceAs (Decidable (_ ∧ _))

instance (d : Document) : Decidable d.IsRegular :=
  decidable_of_iff ((∀ n ∈ d.outsideDefinitions, n.IsQuiet) ∧
    ∀ s ∈ d.statementsOf .documentation, s.tokens ≠ []) ⟨fun h => ⟨h.1, h.2⟩, fun h => ⟨h.1, h.2⟩⟩

private theorem Document.mem_statements {d : Document} {s : Statement} (h : .leaf s ∈ d.visited) :
    s ∈ d.statements := by
  simp only [visited, List.mem_flatMap] at h
  obtain ⟨sec, hsec, hs⟩ := h
  exact List.mem_flatMap.mpr ⟨sec, hsec, List.mem_filterMap.mpr ⟨.leaf s, hs, rfl⟩⟩

private theorem Document.IsRegular.worded_visited {d : Document} (h : d.IsRegular) :
    Check.Tag.Worded d.visited := by
  intro s hs hkind
  apply h.worded
  exact List.mem_filter.mpr ⟨Document.mem_statements hs, by simpa using hkind⟩

theorem Document.isRegular_map_cleaned {d : Document} :
    (d.map Statement.cleaned).IsRegular ↔ d.IsRegular := by
  have hquiet (n : Node) : (n.map Statement.cleaned).IsQuiet ↔ n.IsQuiet := by
    simp only [Node.IsQuiet, Statement.isMild_cleaned.isStatement_map, Node.isBlock_map]
  have houtside : (d.map Statement.cleaned).outsideDefinitions =
      d.outsideDefinitions.map (Node.map Statement.cleaned) := by
    simp [outsideDefinitions, Section.visitedUntil_map, List.flatMap_map, List.map_flatMap]
  have hdocs : (d.map Statement.cleaned).statementsOf .documentation =
      (d.statementsOf .documentation).map Statement.cleaned := by
    simp [statementsOf, List.filter_map, Function.comp_def, Statement.isMild_cleaned.kind]
  constructor
  · rintro ⟨hquiets, hworded⟩
    rw [houtside, List.forall_mem_map] at hquiets
    rw [hdocs, List.forall_mem_map] at hworded
    exact ⟨fun n hn => (hquiet n).mp (hquiets n hn), fun s hs => by simpa using hworded s hs⟩
  · rintro ⟨hquiets, hworded⟩
    refine ⟨?_, ?_⟩
    · rw [houtside, List.forall_mem_map]
      exact fun n hn => (hquiet n).mpr (hquiets n hn)
    · rw [hdocs, List.forall_mem_map]
      exact fun s hs => by simpa using hworded s hs

private theorem Document.IsRegular.of_cleaned_eq {d d' : Document} (hd : d.IsRegular)
    (h : d'.map Statement.cleaned = d.map Statement.cleaned) : d'.IsRegular := by
  rwa [← isRegular_map_cleaned, h, isRegular_map_cleaned]

/-! ## Variables that look alike -/

namespace Check.Variable

def Blind (ns : List Node) : Prop := ∀ s s' : Scope, (s.visitAll ns).1 = (s'.visitAll ns).1

private theorem visitAll_append (s : Scope) (ns ms : List Node) :
    (s.visitAll (ns ++ ms)).1 = (s.visitAll ns).1 ++ ((s.visitAll ns).2.visitAll ms).1 := by
  induction ns generalizing s with
  | nil => rfl
  | cons n ns ih => simp [Scope.visitAll, ih]

theorem blind_nil : Blind [] := fun _ _ => rfl

theorem Blind.append {ns ms : List Node} (hn : Blind ns) (hm : Blind ms) : Blind (ns ++ ms) := by
  intro s s'
  rw [visitAll_append, visitAll_append, hn s s', hm (s.visitAll ns).2 (s'.visitAll ns).2]

theorem blind_leaf {s : Statement} (h : (Node.leaf s).IsQuiet) : Blind [.leaf s] := by
  intro scope scope'
  have hkind : s.kind ≠ .keywordCall := by simpa [Node.isStatement] using h.1
  simp [Scope.visitAll, Scope.visit, hkind]

theorem blind_leaves {s : Option Statement} (h : ∀ n ∈ s.toList.map Node.leaf, n.IsQuiet) :
    Blind (s.toList.map .leaf) := by
  cases s with
  | none => exact blind_nil
  | some s => exact blind_leaf (h (.leaf s) (by simp))

theorem blind_definition {kind : BlockKind} (hkind : Documentation.isDefinition kind = true)
    (header : Statement) (body : List Node) (orelse : Option Node) (close : Option Statement)
    (errors : List String) (ns : List Node) :
    Blind (.block kind header body orelse close errors :: ns) := by
  intro s s'
  cases kind with
  | testCase => rfl
  | keyword => rfl
  | for_ => simp [Documentation.isDefinition] at hkind
  | forLoop => simp [Documentation.isDefinition] at hkind
  | if_ => simp [Documentation.isDefinition] at hkind

mutual

theorem blind_visited : ∀ n : Node,
    (∀ m ∈ n.visitedUntil Documentation.isDefinition, m.IsQuiet) → Blind n.visited
  | .leaf s, h => blind_leaf (h (.leaf s) (by simp [Node.visitedUntil]))
  | .block kind header body orelse close errors, h => by
    by_cases hkind : Documentation.isDefinition kind = true
    · rw [Node.visited_block]
      exact blind_definition hkind header body orelse close errors _
    · rw [Node.visitedUntil, if_neg hkind] at h
      have hself := h _ List.mem_cons_self
      have hif : Blind [.block kind header body orelse close errors] := by
        intro s s'
        cases kind with
        | testCase => exact absurd rfl hkind
        | keyword => exact absurd rfl hkind
        | for_ => simp [Node.IsQuiet, Node.isBlock, Node.isBlockWith] at hself
        | forLoop => simp [Node.IsQuiet, Node.isBlock, Node.isBlockWith] at hself
        | if_ => rfl
      rw [Node.visited_block]
      refine hif.append ((blind_leaf (h _ (by simp))).append (.append (.append ?_ ?_) ?_))
      · exact blind_visitedAll body fun m hm => h m (by simp [hm])
      · exact blind_visitedBranch orelse fun m hm => h m (by simp [hm])
      · exact blind_leaves fun m hm => h m (by simp_all)

theorem blind_visitedAll : ∀ ns : List Node,
    (∀ m ∈ Node.visitedUntilAll Documentation.isDefinition ns, m.IsQuiet) →
      Blind (Node.visitedUntilAll (fun _ => false) ns)
  | [], _ => blind_nil
  | n :: ns, h => by
    rw [Node.visitedUntilAll] at h ⊢
    exact (blind_visited n fun m hm => h m (List.mem_append_left _ hm)).append
      (blind_visitedAll ns fun m hm => h m (List.mem_append_right _ hm))

private theorem blind_visitedBranch : ∀ n : Option Node,
    (∀ m ∈ Node.visitedUntilBranch Documentation.isDefinition n, m.IsQuiet) →
      Blind (Node.visitedUntilBranch (fun _ => false) n)
  | none, _ => blind_nil
  | some n, h => blind_visited n h

end

theorem blind_sections (ss : List Section)
    (h : ∀ n ∈ ss.flatMap (·.visitedUntil Documentation.isDefinition), n.IsQuiet) :
    Blind (ss.flatMap Section.visited) := by
  induction ss with
  | nil => exact blind_nil
  | cons s ss ih =>
    rw [List.flatMap_cons] at h ⊢
    refine Blind.append ?_ (ih fun n hn => h n (List.mem_append_right _ hn))
    have hs := fun n hn => h n (List.mem_append_left _ hn)
    rw [Section.visitedUntil] at hs
    exact (blind_leaves fun n hn => hs n (List.mem_append_left _ hn)).append
      (blind_visitedAll s.body fun n hn => hs n (List.mem_append_right _ hn))

private theorem checkSimilar_blind {d : Document} (h : d.IsRegular) (s s' : Scope) :
    (checkSimilar s d).1 = (checkSimilar s' d).1 :=
  blind_sections d.sections h.quiet s s'

end Check.Variable

/-! ## Settings for tags -/

namespace Check.Tag

def Akin (s s' : Scope) : Prop :=
  s' = { s with trace := ⟨s.trace.inKeywords, s'.trace.defaultsLine⟩ } ∧
    (s.defaults ≠ [] → s'.trace.defaultsLine = s.trace.defaultsLine)

private theorem Akin.within {s s' : Scope} (h : Akin s s') (flag : Bool) :
    Akin (s.within flag) (s'.within flag) := by
  obtain ⟨hs, hline⟩ := h
  rw [hs] at hline ⊢
  exact ⟨rfl, hline⟩

theorem visit_akin {s s' : Scope} (h : Akin s s') (n : Node) :
    (s'.visit n).1 = (s.visit n).1 ∧ Akin (s.visit n).2 (s'.visit n).2 := by
  obtain ⟨hs, hline⟩ := h
  rw [hs] at hline ⊢
  cases n with
  | block kind => cases kind <;> exact ⟨rfl, rfl, hline⟩
  | leaf st =>
    simp only [Scope.visit]
    split
    · exact ⟨rfl, rfl, hline⟩
    · exact ⟨rfl, rfl, fun _ => rfl⟩
    · exact ⟨rfl, rfl, hline⟩
    · exact ⟨rfl, rfl, hline⟩

theorem visitAll_akin {s s' : Scope} (h : Akin s s') (ns : List Node) :
    (s'.visitAll ns).1 = (s.visitAll ns).1 ∧ Akin (s.visitAll ns).2 (s'.visitAll ns).2 := by
  induction ns generalizing s s' with
  | nil => exact ⟨rfl, h⟩
  | cons n ns ih =>
    obtain ⟨hhere, hnext⟩ := visit_akin h n
    obtain ⟨hmore, hlast⟩ := ih hnext
    simp only [Scope.visitAll, hhere, hmore]
    exact ⟨trivial, hlast⟩

theorem visitSection_akin {s s' : Scope} (h : Akin s s') (sec : Section) :
    (s'.visitSection sec).1 = (s.visitSection sec).1 ∧
      Akin (s.visitSection sec).2 (s'.visitSection sec).2 := by
  unfold Scope.visitSection
  split
  · obtain ⟨hhere, hnext⟩ := visitAll_akin (h.within true) sec.visited
    exact ⟨hhere, hnext.within false⟩
  · exact visitAll_akin h sec.visited

theorem visitSections_akin {s s' : Scope} (h : Akin s s') (ss : List Section) :
    (s'.visitSections ss).1 = (s.visitSections ss).1 ∧
      Akin (s.visitSections ss).2 (s'.visitSections ss).2 := by
  induction ss generalizing s s' with
  | nil => exact ⟨rfl, h⟩
  | cons sec ss ih =>
    obtain ⟨hhere, hnext⟩ := visitSection_akin h sec
    obtain ⟨hmore, hlast⟩ := ih hnext
    simp only [Scope.visitSections, hhere, hmore]
    exact ⟨trivial, hlast⟩

theorem summary_akin (arrange : List String → List String) {s s' : Scope} (h : Akin s s')
    (d : Document) : s'.summary arrange d = s.summary arrange d := by
  obtain ⟨hs, hline⟩ := h
  by_cases hd : s.defaults = []
  · rw [hs]
    simp [Scope.summary, Scope.common, hd]
  · rw [hline hd] at hs
    rw [hs]

private theorem checkScopes_stale (arrange : List String → List String) {t t' : Trace}
    (h : t'.inKeywords = t.inKeywords) (d : Document) :
    (checkScopes arrange t' d).1 = (checkScopes arrange t d).1 := by
  have hstart : Akin (.start t) (.start t') := ⟨by simp [Scope.start, ← h], by simp [Scope.start]⟩
  obtain ⟨hhere, hlast⟩ := visitSections_akin hstart d.sections
  simp only [checkScopes, hhere, summary_akin arrange hlast]

theorem inKeywords_visitAll (s : Scope) (ns : List Node) :
    (s.visitAll ns).2.trace.inKeywords = s.trace.inKeywords := by
  induction ns generalizing s with
  | nil => rfl
  | cons n ns ih =>
    have hn : (s.visit n).2.trace.inKeywords = s.trace.inKeywords := by
      cases n with
      | block kind => cases kind <;> rfl
      | leaf st =>
        simp only [Scope.visit]
        split <;> rfl
    simp only [Scope.visitAll, ih, hn]

theorem inKeywords_visitSections {s : Scope} (h : s.trace.inKeywords = false) (ss : List Section) :
    (s.visitSections ss).2.trace.inKeywords = false := by
  induction ss generalizing s with
  | nil => exact h
  | cons sec ss ih =>
    have hsec : (s.visitSection sec).2.trace.inKeywords = false := by
      unfold Scope.visitSection
      split
      · rfl
      · rw [inKeywords_visitAll, h]
    exact ih hsec

private theorem inKeywords_checkScopes (arrange : List String → List String) {t : Trace}
    (h : t.inKeywords = false) (d : Document) : (checkScopes arrange t d).2.inKeywords = false :=
  inKeywords_visitSections (s := .start t) h d.sections

end Check.Tag

/-! ## The memory of the linter -/

def Memory.Settled (m : Memory) : Prop := m.inKeyword = false ∧ m.tags.inKeywords = false

private theorem Memory.settled_blank : Memory.blank.Settled := ⟨rfl, rfl⟩

section

variable (job : Job) (values : Values)

theorem Checker.run_settled (c : Checker) {w : Wake} (hm : w.memory.Settled)
    (hw : Check.Tag.Worded w.document.visited) :
    (c.run job values w).2.memory.Settled ∧
      Check.Tag.Worded (c.run job values w).2.document.visited := by
  cases c
  case similarVariables => exact ⟨hm, hw⟩
  case tagScopes => exact ⟨⟨hm.1, Check.Tag.inKeywords_checkScopes job.host.arrange hm.2 w.document⟩, hw⟩
  case tagNames =>
    obtain ⟨here, d', flag, hnames⟩ := Check.Tag.checkNames_ok w.memory.inKeyword w.document hw
    simp only [run, hnames]
    rw [hm.1] at hnames
    obtain ⟨hcleaned, hflag⟩ := Check.Tag.cleaned_checkNames hnames
    have hvisited := congrArg Document.visited hcleaned
    rw [Document.visited_map, Document.visited_map] at hvisited
    refine ⟨⟨hflag rfl, hm.2⟩, ?_⟩
    rwa [← Check.Tag.worded_map_cleaned, hvisited, Check.Tag.worded_map_cleaned]
  all_goals exact ⟨hm, hw⟩

theorem Checker.run_isolated (c : Checker) {d : Document} {m : Memory} (hd : d.IsRegular)
    (hm : m.Settled) :
    (c.run job values ⟨d, m⟩).1 =
      (c.run job values ⟨d, .blank⟩).1 := by
  cases c
  case similarVariables =>
    exact congrArg Except.ok (Check.Variable.checkSimilar_blind hd m.scope Memory.blank.scope)
  case tagScopes =>
    exact congrArg Except.ok (Check.Tag.checkScopes_stale _ (t := Memory.blank.tags) hm.2 d)
  case tagNames => exact run_congr job values .tagNames d hm.1
  all_goals rfl

end

namespace Linter

theorem runAll_settled (job : Job) {w : Wake} (hm : w.memory.Settled)
    (hw : Check.Tag.Worded w.document.visited) (cs : List (CheckerEntry Checker)) :
    (runAll job w cs).2.Settled := by
  induction cs generalizing w with
  | nil => exact hm
  | cons c cs ih =>
    obtain ⟨hm', hw'⟩ : (leftBy job w c).memory.Settled ∧
        Check.Tag.Worded (leftBy job w c).document.visited := by
      unfold leftBy
      split
      · exact ⟨hm, hw⟩
      · exact c.tag.run_settled job c.values hm hw
    rw [runAll_cons]
    cases shareOf job w c with
    | error e => exact hm'
    | ok here => exact ih hm' hw'

private theorem check_settled {l : Linter} (hm : l.memory.Settled) {s : Subject}
    (hs : s.document.IsRegular) : (l.check s).2.memory.Settled := by
  cases hfile : s.content.disablers.wholeFile with
  | true => simpa only [check, Subject.off_job, hfile, if_true] using hm
  | false =>
    simp only [check, Subject.off_job, hfile, Bool.false_eq_true, if_false]
    exact runAll_settled _ hm hs.worded_visited _

private theorem check_frame (l : Linter) (s : Subject) :
    (l.check s).2.host = l.host ∧ (l.check s).2.registry = l.registry := by
  unfold check
  dsimp only
  split <;> exact ⟨rfl, rfl⟩

/-- The linter after it has checked documents, with or without success. -/
def after (l : Linter) (ds : List Subject) : Linter := ds.foldl (fun l s => (l.check s).2) l

private theorem after_frame (l : Linter) (ds : List Subject) :
    (l.after ds).host = l.host ∧ (l.after ds).registry = l.registry := by
  induction ds generalizing l with
  | nil => exact ⟨rfl, rfl⟩
  | cons d ds ih =>
    obtain ⟨hhost, hregistry⟩ := check_frame l d
    exact ⟨(ih (l.check d).2).1.trans hhost, (ih (l.check d).2).2.trans hregistry⟩

private theorem after_settled {l : Linter} (hm : l.memory.Settled) {ds : List Subject}
    (hds : ∀ d ∈ ds, d.document.IsRegular) : (l.after ds).memory.Settled := by
  induction ds generalizing l with
  | nil => exact hm
  | cons d ds ih =>
    exact ih (check_settled hm (hds d List.mem_cons_self)) fun e he =>
      hds e (List.mem_cons_of_mem d he)

theorem check_isolated (host : Host) (on : RuleKey → Bool) (t : Tuning) {m : Memory} (hm : m.Settled)
    {s : Subject} (hs : s.document.IsRegular) :
    (check ⟨host, .tuned host on t, m⟩ s).1 =
      (check ⟨host, .tuned host on t, .blank⟩ s).1 := by
  rw [check_tuned, check_tuned]
  split
  · rfl
  · apply outcomes_congr
    intro c _
    have hview : view host on m s c.tag = ⟨(view host on .blank s c.tag).document, m⟩ := by
      have hsame : Checker.cleanedBy (s.job host) ⟨s.document, m⟩ =
          Checker.cleanedBy (s.job host) ⟨s.document, .blank⟩ :=
        Checker.cleanedBy_congr _ rfl hm.1
      simp only [view, seen, hsame]
    rw [shareOf, shareOf, outcome, outcome, hview,
      Checker.run_isolated _ _ _ (hs.of_cleaned_eq (cleaned_view host on .blank s c.tag)) hm]
    rfl

end Linter

/-- A linter that has checked other documents, and may have failed on some, checks a document as a
fresh one with the same options does. -/
theorem Options.check_after (o : Options) {host : Host} {notes : List String} {s : Setup}
    (h : o.setup host = (notes, .ok s)) {ds : List Subject} (hds : ∀ d ∈ ds, d.document.IsRegular)
    {d : Subject} (hd : d.document.IsRegular) :
    ((s.linter.after ds).check d).1 = (s.linter.check d).1 := by
  obtain ⟨-, t, -, hlinter⟩ := setup_ok_iff.mp h
  obtain ⟨hhost, hregistry⟩ := s.linter.after_frame ds
  have hm : (s.linter.after ds).memory.Settled := by
    apply Linter.after_settled _ hds
    rw [hlinter]
    exact Memory.settled_blank
  rcases hl : s.linter.after ds with ⟨m, r, memory⟩
  rw [hl] at hhost hregistry hm
  rw [hlinter] at hhost hregistry ⊢
  obtain rfl : m = host := hhost
  obtain rfl : r = .tuned m o.selection.picks t := hregistry
  exact Linter.check_isolated m _ t hm hd

def Subject.unnamedKeyword : Subject :=
  ⟨"a.robot", .text [], ⟨none, [⟨.keywords, none,
    [.block .keyword ⟨.keywordName, [], []⟩ [] none none []]⟩]⟩⟩

def Subject.assigningTest : Subject :=
  ⟨"b.robot", .text [], ⟨none, [⟨.testCases, none,
    [.block .testCase ⟨.testCaseName, [⟨.testCaseName, "Test", 1, 0⟩], []⟩
      [.leaf ⟨.keywordCall, [⟨.assign, "$\x7bx\x7d", 2, 4⟩, ⟨.keyword, "Log", 2, 12⟩], []⟩]
      none none []]⟩]⟩⟩

theorem Options.check_after_unnamedKeyword :
    ∃ s : Setup, standard.setup .plain = ([], .ok s) ∧
      Subject.assigningTest.document.IsRegular ∧ Subject.unnamedKeyword.document.IsRegular ∧
      (s.linter.check .unnamedKeyword).1 = .error (.brokenCheck .absentPart) ∧
      ((s.linter.after [.assigningTest, .unnamedKeyword]).check .assigningTest).1 =
        (s.linter.check .assigningTest).1 := by
  have hsetup : standard.setup .plain =
      ([], .ok ⟨⟨.plain, .tuned .plain standard.selection.picks .start, .blank⟩,
        .ofNames ["return_status"]⟩) := by
    rw [setup_ok_iff]
    exact ⟨⟨.everything, Selection.validate_everything ..⟩, .start, rfl, rfl⟩
  have htest : Subject.assigningTest.document.IsRegular := by decide
  have hkeyword : Subject.unnamedKeyword.document.IsRegular := by decide
  refine ⟨_, hsetup, htest, hkeyword, ?_, check_after standard hsetup ?_ htest⟩
  · rw [Linter.check_tuned]
    rfl
  · intro d hd
    simp only [List.mem_cons, List.not_mem_nil, or_false] at hd
    rcases hd with rfl | rfl
    · exact htest
    · exact hkeyword

end SuiteLint
