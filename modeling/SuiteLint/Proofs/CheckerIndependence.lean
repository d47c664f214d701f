import SuiteLint.Proofs.TidyChecks

/-!
# Checkers do not disturb each other

A checker reads the document and at most one field of the memory, and no other one writes that field. The
check of tag names alone changes the document. So a run of all is the list of what they find apart, in the
document as it was or, for those that come after the check of tag names, in what that leaves.
-/

namespace SuiteLint

@[simp] theorem Subject.host_job (s : Subject) (host : Host) : (s.job host).host = host := rfl

@[simp] theorem Subject.fileName_job (s : Subject) (host : Host) : (s.job host).fileName = s.fileName := rfl

@[simp] theorem Subject.off_job (s : Subject) (host : Host) :
    (s.job host).off = s.content.disablers := rfl

namespace Checker

/-- Two memories are the same to a checker. -/
def ReadsAlike (m m' : Memory) : Checker → Prop
  | similarVariables => m'.scope = m.scope
  | tagNames => m'.inKeyword = m.inKeyword
  | tagScopes => m'.tags = m.tags
  | _ => True

variable (job : Job) (values : Values)

theorem run_congr (c : Checker) (d : Document) {m m' : Memory} (h : c.ReadsAlike m m') :
    (c.run job values ⟨d, m'⟩).1 = (c.run job values ⟨d, m⟩).1 := by
  cases c
  case similarVariables => simp only [run, show m'.scope = m.scope from h]
  case tagNames =>
    simp only [run, show m'.inKeyword = m.inKeyword from h]
    split <;> rfl
  case tagScopes => simp only [run, show m'.tags = m.tags from h]
  all_goals rfl

def leavesNothing : Checker → Bool
  | similarVariables | tagNames | tagScopes => false
  | _ => true

theorem run_wake {c : Checker} (h : c.leavesNothing = true) (w : Wake) :
    (c.run job values w).2 = w := by
  cases c
  case similarVariables => simp [leavesNothing] at h
  case tagNames => simp [leavesNothing] at h
  case tagScopes => simp [leavesNothing] at h
  all_goals rfl

@[simp] theorem document_run {c : Checker} (hc : c ≠ .tagNames) (w : Wake) :
    (c.run job values w).2.document = w.document := by
  cases c
  case tagNames => exact absurd rfl hc
  all_goals rfl

theorem readsAlike_run {c d : Checker} (hne : c ≠ d) (w : Wake) :
    d.ReadsAlike w.memory (c.run job values w).2.memory := by
  by_cases hc : c.leavesNothing = true
  · rw [run_wake job values hc]
    cases d <;> trivial
  · cases c
    case similarVariables => cases d <;> first | exact absurd rfl hne | trivial
    case tagScopes => cases d <;> first | exact absurd rfl hne | trivial
    case tagNames =>
      simp only [run]
      cases Check.Tag.checkNames w.memory.inKeyword w.document <;> cases d <;>
        first | exact absurd rfl hne | trivial
    all_goals exact absurd rfl hc

/-- No checker but that of tag names sees whether tags are tidy. -/
theorem run_tidied {c : Checker} (hc : c ≠ .tagNames) (d : Document) (m : Memory) :
    (c.run job values ⟨d.map Statement.tidied, m⟩).1 =
        (c.run job values ⟨d, m⟩).1 ∧
      (c.run job values ⟨d.map Statement.tidied, m⟩).2.memory =
        (c.run job values ⟨d, m⟩).2.memory := by
  cases c
  case tagNames => exact absurd rfl hc
  all_goals
    simp only [run, Check.Comment.check_tidied, Check.Documentation.check_tidied,
      Check.Duplicate.check_tidied, Check.SectionHeader.check_map _ _ Statement.isMild_tidied,
      Check.KeywordCall.checkNames_tidied, Check.KeywordCall.checkSettings_tidied,
      Check.KeywordCall.checkConditions_tidied, Check.ParsingError.check_tidied,
      Check.Setting.checkEmpty_tidied, Check.Setting.checkVariablesImports_tidied,
      Check.Length.check_map _ _ Statement.isMild_tidied, Check.Length.checkSections_tidied,
      Check.Length.checkReturned_tidied, Check.Length.checkTestCases_tidied,
      Check.Assignment.check_tidied, Check.Variable.checkEmpty_tidied,
      Check.Variable.checkNames_tidied, Check.Variable.checkSimilar_tidied,
      Check.Definition.checkImports_tidied, Check.Definition.checkResource_tidied,
      Check.Definition.checkLoops_tidied, Check.Definition.checkReturns_tidied,
      Check.Naming.checkCharacters_tidied, Check.Naming.checkTitles_tidied,
      Check.Naming.checkSettings_tidied, Check.KeywordName.check_tidied,
      Check.EmptyLine.check_tidied, Check.Layout.checkSeparators_tidied,
      Check.Layout.checkContinuations_tidied, Check.Layout.checkAlignment_tidied,
      Check.Indent.check_tidied, Check.Tag.checkScopes_map Statement.isMild_tidied, and_self]

theorem run_eq_of_tidied {c : Checker} (hc : c ≠ .tagNames) {d d' : Document}
    (h : d'.map Statement.tidied = d.map Statement.tidied) (m : Memory) :
    (c.run job values ⟨d', m⟩).1 =
        (c.run job values ⟨d, m⟩).1 ∧
      (c.run job values ⟨d', m⟩).2.memory =
        (c.run job values ⟨d, m⟩).2.memory := by
  have hd := run_tidied job values hc d m
  have hd' := run_tidied job values hc d' m
  rw [h] at hd'
  exact ⟨hd'.1.symm.trans hd.1, hd'.2.symm.trans hd.2⟩

/-! ## The document that the check of tag names leaves -/

/-- What the check of tag names makes of a document. -/
def cleanedBy (job : Job) (w : Wake) : Document := (tagNames.run job [] w).2.document

theorem cleanedBy_congr {w w' : Wake} (hdocument : w'.document = w.document)
    (hmemory : tagNames.ReadsAlike w.memory w'.memory) : cleanedBy job w' = cleanedBy job w := by
  simp only [cleanedBy, run, hdocument, show w'.memory.inKeyword = w.memory.inKeyword from hmemory]
  cases Check.Tag.checkNames w.memory.inKeyword w.document <;> rfl

theorem map_cleanedBy (w : Wake) :
    (cleanedBy job w).map Statement.cleaned = w.document.map Statement.cleaned := by
  simp only [cleanedBy, run]
  cases hnames : Check.Tag.checkNames w.memory.inKeyword w.document with
  | error e => rfl
  | ok found => exact (Check.Tag.cleaned_checkNames hnames).1

theorem tidied_cleanedBy {w : Wake} (hplain : PlainDocs w.document.visited) :
    (cleanedBy job w).map Statement.tidied = w.document.map Statement.tidied := by
  simp only [cleanedBy, run]
  cases hnames : Check.Tag.checkNames w.memory.inKeyword w.document with
  | error e => rfl
  | ok found => exact Check.Tag.tidied_checkNames hplain hnames

end Checker

namespace Linter

variable (job : Job)

def outcome (w : Wake) (c : CheckerEntry Checker) : Except LintError (List Issue) :=
  match (c.tag.run job c.values w).1 with
  | .error e => .error (.brokenCheck e)
  | .ok findings => c.issuesOf job.fileName job.off findings

def shareOf (w : Wake) (c : CheckerEntry Checker) : Except LintError (List Issue) :=
  if c.disabled then .ok [] else outcome job w c

def leftBy (w : Wake) (c : CheckerEntry Checker) : Wake :=
  if c.disabled then w else (c.tag.run job c.values w).2

/-- The issues of checkers, each in a state of its own, up to one that fails. -/
def outcomes (ws : Checker → Wake) : List (CheckerEntry Checker) → Except LintError (List Issue)
  | [] => .ok []
  | c :: cs =>
    if c.disabled then outcomes ws cs
    else match outcome job (ws c.tag) c with
      | .error e => .error e
      | .ok issues => (outcomes ws cs).map (issues ++ ·)

section

variable {job} {w : Wake} {ws : Checker → Wake} {c : CheckerEntry Checker}
  {cs : List (CheckerEntry Checker)} {issues : List Issue}

theorem outcome_ok (h : outcome job w c = .ok issues) :
    ∃ findings, (c.tag.run job c.values w).1 = .ok findings ∧
      c.issuesOf job.fileName job.off findings = .ok issues := by
  unfold outcome at h
  split at h
  · cases h
  · next findings hrun => exact ⟨findings, hrun, h⟩

theorem outcome_of_mem_shareOf {i : Issue}
    (h : shareOf job w c = .ok issues) (hi : i ∈ issues) :
    outcome job w c = .ok issues := by
  unfold shareOf at h
  split at h
  · cases h
    cases hi
  · exact h

theorem outcomes_cons : outcomes job ws (c :: cs) =
    match shareOf job (ws c.tag) c with
    | .error e => .error e
    | .ok here => (outcomes job ws cs).map (here ++ ·) := by
  rw [outcomes, shareOf]
  split
  · cases outcomes job ws cs <;> rfl
  · rfl

/-- A run goes on after a checker in the state that this leaves, unless it fails. -/
theorem runAll_cons : runAll job w (c :: cs) =
    let left := leftBy job w c
    match shareOf job w c with
    | .error e => (.error e, left.memory)
    | .ok here =>
      ((runAll job left cs).1.map (here ++ ·),
        (runAll job left cs).2) := by
  cases hc : c.disabled with
  | true =>
    simp only [runAll, shareOf, leftBy, hc, if_true]
    rcases runAll job w cs with ⟨e | more, memory⟩ <;> rfl
  | false =>
    simp only [runAll, shareOf, leftBy, outcome, hc, Bool.false_eq_true, if_false]
    rcases c.tag.run job c.values w with ⟨e | findings, w'⟩
    · rfl
    · dsimp only
      cases c.issuesOf job.fileName job.off findings with
      | error e => rfl
      | ok here =>
        rcases runAll job w' cs with ⟨e | more, memory⟩ <;> rfl

theorem runAll_cons_eq_ok_iff {memory : Memory} :
    runAll job w (c :: cs) = (.ok issues, memory) ↔
      ∃ here more, shareOf job w c = .ok here ∧
        runAll job (leftBy job w c)
          cs = (.ok more, memory) ∧ here ++ more = issues := by
  rw [runAll_cons]
  dsimp only
  cases shareOf job w c with
  | error e => simp
  | ok here =>
    rcases runAll job (leftBy job w c) cs
      with ⟨e | more, m⟩
    · simp [Except.map]
    · simp only [Except.map, Prod.mk.injEq, Except.ok.injEq]
      constructor
      · rintro ⟨hissues, hmemory⟩
        exact ⟨here, more, rfl, ⟨rfl, hmemory⟩, hissues⟩
      · rintro ⟨_, _, rfl, ⟨rfl, hmemory⟩, hissues⟩
        exact ⟨hissues, hmemory⟩

theorem outcomes_cons_eq_ok_iff :
    outcomes job ws (c :: cs) = .ok issues ↔
      ∃ here more, shareOf job (ws c.tag) c = .ok here ∧
        outcomes job ws cs = .ok more ∧ here ++ more = issues := by
  rw [outcomes_cons]
  cases shareOf job (ws c.tag) c with
  | error e => simp
  | ok here =>
    cases outcomes job ws cs <;> simp [Except.map]

end

theorem outcomes_congr {ws ws' : Checker → Wake} {cs : List (CheckerEntry Checker)}
    (h : ∀ c ∈ cs, shareOf job (ws' c.tag) c = shareOf job (ws c.tag) c) :
    outcomes job ws' cs = outcomes job ws cs := by
  induction cs with
  | nil => rfl
  | cons c cs ih =>
    rw [outcomes_cons, outcomes_cons, h c List.mem_cons_self,
      ih fun d hd => h d (List.mem_cons_of_mem c hd)]

/-- Whether the check of tag names runs before a checker. -/
def cleansBefore (cs : List (CheckerEntry Checker)) (c : Checker) : Bool :=
  (cs.takeWhile (·.tag ≠ c)).any fun d => d.tag = .tagNames && !d.disabled

/-- What a checker reads in a run: the document, or what the check of tag names has left of it. -/
def seen (w : Wake) (cs : List (CheckerEntry Checker)) (c : Checker) : Wake :=
  ⟨if cleansBefore cs c then Checker.cleanedBy job w else w.document, w.memory⟩

theorem readsAlike_leftBy {c : CheckerEntry Checker} {d : Checker} (hne : c.tag ≠ d) (w : Wake) :
    d.ReadsAlike w.memory (leftBy job w c).memory := by
  unfold leftBy
  split
  · cases d <;> trivial
  · exact Checker.readsAlike_run job c.values hne w

/-- What the checkers after the first one read is not changed by it, unless it checks tag names. -/
theorem document_seen_leftBy {w : Wake} {c : CheckerEntry Checker} {cs : List (CheckerEntry Checker)}
    (hnodup : c.tag ∉ cs.map (·.tag)) {d : Checker} (hd : d ∈ cs.map (·.tag)) :
    (seen job (leftBy job w c) cs d).document = (seen job w (c :: cs) d).document := by
  have hne : c.tag ≠ d := fun heq => hnodup (heq ▸ hd)
  have hcons : cleansBefore (c :: cs) d =
      ((decide (c.tag = .tagNames) && !c.disabled) || cleansBefore cs d) := by
    simp [cleansBefore, hne]
  simp only [seen, hcons]
  by_cases hfirst : (decide (c.tag = .tagNames) && !c.disabled) = true
  · have hrest : cleansBefore cs d = false := by
      rw [cleansBefore, List.any_eq_false]
      intro e he
      have hmem := List.mem_map_of_mem (f := (·.tag)) ((List.takeWhile_sublist _).mem he)
      simp only [Bool.and_eq_true, decide_eq_true_eq] at hfirst
      simpa [hfirst.1] using fun htag : e.tag = .tagNames => absurd (hfirst.1.trans htag.symm ▸ hmem) hnodup
    simp only [Bool.and_eq_true, decide_eq_true_eq, Bool.not_eq_true'] at hfirst
    simp only [hrest, hfirst, leftBy, Checker.cleanedBy, decide_true, Bool.not_false, Bool.and_self,
      Bool.true_or, if_true, Bool.false_eq_true, if_false]
    rfl
  · have hdocument : (leftBy job w c).document = w.document := by
      unfold leftBy
      split
      · rfl
      · next hon =>
        refine Checker.document_run job c.values (fun htag => hfirst ?_) w
        simp [htag, hon]
    have hcleaned : Checker.cleanedBy job (leftBy job w c) = Checker.cleanedBy job w := by
      by_cases htag : c.tag = .tagNames
      · have hoff : c.disabled = true := by simpa [htag] using hfirst
        rw [leftBy, if_pos hoff]
      · exact Checker.cleanedBy_congr job hdocument (readsAlike_leftBy job htag w)
    rw [hcleaned, hdocument, Bool.eq_false_iff.mpr hfirst, Bool.false_or]

/-- A run is the list of what the checkers find apart. -/
theorem runAll_eq_outcomes (w : Wake) (cs : List (CheckerEntry Checker)) (h : (cs.map (·.tag)).Nodup) :
    (runAll job w cs).1 = outcomes job (seen job w cs) cs := by
  induction cs generalizing w with
  | nil => rfl
  | cons c cs ih =>
    rw [List.map_cons, List.nodup_cons] at h
    have hfirst : seen job w (c :: cs) c.tag = w := by
      simp [seen, cleansBefore]
    have hrest : outcomes job (seen job (leftBy job w c) cs) cs =
        outcomes job (seen job w (c :: cs)) cs := by
      apply outcomes_congr
      intro d hd
      have hmem := List.mem_map_of_mem (f := (·.tag)) hd
      have hdocument := document_seen_leftBy job (w := w) h.1 hmem
      have hread := readsAlike_leftBy job (fun heq : c.tag = d.tag => h.1 (heq ▸ hmem)) w
      have hseen : seen job (leftBy job w c) cs d.tag =
          ⟨(seen job w (c :: cs) d.tag).document, (leftBy job w c).memory⟩ := by
        rw [← hdocument]
        rfl
      rw [shareOf, shareOf, outcome, outcome, hseen, Checker.run_congr job d.values d.tag _ hread]
      rfl
    rw [runAll_cons, outcomes_cons, hfirst, ← hrest, ← ih _ h.2]
    cases shareOf job w c <;> rfl

private theorem seen_tagNames (w : Wake) (cs : List (CheckerEntry Checker)) : seen job w cs .tagNames = w := by
  have hbefore : cleansBefore cs .tagNames = false := by
    rw [cleansBefore, List.any_eq_false]
    intro d hd
    simpa using fun htag : d.tag = .tagNames => absurd htag (by simpa using List.mem_takeWhile_imp hd)
  simp [seen, hbefore]

theorem cleaned_seen (w : Wake) (cs : List (CheckerEntry Checker)) (c : Checker) :
    (seen job w cs c).document.map Statement.cleaned = w.document.map Statement.cleaned := by
  unfold seen
  split
  · exact Checker.map_cleanedBy job w
  · rfl

/-- The check of tag names comes after all that read a [Documentation]. -/
def AreTagsLast (cs : List Checker) : Prop := cs.Pairwise fun c d => c = .tagNames → d = .tagScopes

instance (cs : List Checker) : Decidable (AreTagsLast cs) := inferInstanceAs (Decidable (List.Pairwise ..))

/-- If a [Documentation] is plain, or tag names are checked last, each checker finds what it finds in the
document as it was. -/
theorem shareOf_seen {w : Wake} {cs : List (CheckerEntry Checker)}
    (h : PlainDocs w.document.visited ∨ AreTagsLast (cs.map (·.tag))) {c : CheckerEntry Checker}
    (hc : c ∈ cs) : shareOf job (seen job w cs c.tag) c = shareOf job w c := by
  by_cases htag : c.tag = .tagNames
  · rw [htag, seen_tagNames]
  suffices hrun : (c.tag.run job c.values (seen job w cs c.tag)).1 = (c.tag.run job c.values w).1 by
    rw [shareOf, shareOf, outcome, outcome, hrun]
  unfold seen
  cases hbefore : cleansBefore cs c.tag with
  | false => rfl
  | true =>
    rcases h with hplain | hlast
    · exact (Checker.run_eq_of_tidied job c.values htag (Checker.tidied_cleanedBy job hplain) _).1
    · obtain ⟨d, hd, hnames⟩ := List.any_eq_true.mp hbefore
      have hscopes : c.tag = .tagScopes := by
        have hsplit := List.takeWhile_append_dropWhile (p := fun d => decide (d.tag ≠ c.tag)) (l := cs)
        have hc' : c ∈ cs.dropWhile fun d => decide (d.tag ≠ c.tag) := by
          rw [← hsplit, List.mem_append] at hc
          exact hc.resolve_left fun hmem => by simpa using List.mem_takeWhile_imp hmem
        rw [AreTagsLast, ← hsplit, List.map_append, List.pairwise_append] at hlast
        exact hlast.2.2 _ (List.mem_map_of_mem hd) _ (List.mem_map_of_mem hc') (by simp_all)
      have hmap := Checker.map_cleanedBy job w
      simp only [hscopes, if_true, Checker.run]
      rw [← Check.Tag.checkScopes_map Statement.isMild_cleaned, hmap,
        Check.Tag.checkScopes_map Statement.isMild_cleaned]

end Linter

end SuiteLint
