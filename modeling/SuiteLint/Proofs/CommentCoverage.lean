import Mathlib.Data.List.Infix
import SuiteLint.Proofs.FindingIssues

/-!
# Which comments are looked at

The check of comments (0701, 0702) knows some kinds of statements and not others. So it reports what is due
for all comments, going by their texts alone, exactly if nothing is due for those in statements of other
kinds.
-/

namespace SuiteLint

/-! ## What is due for a comment -/

namespace Token

def Mentions (t : Token) (word : String) : Prop := word.toList <:+: Text.lower t.value.toList

def LacksBlank (t : Token) : Prop :=
  "#".toList <+: t.value.toList ∧ t.value ≠ "#" ∧ ¬ "# ".toList <+: t.value.toList

instance (t : Token) (word : String) : Decidable (t.Mentions word) :=
  inferInstanceAs (Decidable (_ <:+: _))

instance (t : Token) : Decidable t.LacksBlank := inferInstanceAs (Decidable (_ ∧ _ ∧ _))

/-- What is due for a comment: the ids of rules with their messages and the line. -/
def due (t : Token) : List (String × String × Int) :=
  (if t.Mentions "todo" then [("0701", "Found TODO in comment", t.line)] else []) ++
  (if t.Mentions "fixme" then [("0701", "Found FIXME in comment", t.line)] else []) ++
  if t.LacksBlank then [("0702", "Missing blank space after comment character", t.line)] else []

end Token

def Statement.due (s : Statement) : List (String × String × Int) :=
  (s.tokensOf .comment).flatMap Token.due

def StatementKind.withoutCommentCheck : List StatementKind :=
  [.libraryImport, .resourceImport, .variablesImport, .testCaseName, .keywordName, .teardown,
   .templateArguments, .end_, .error, .emptyLine]

/-- The id of a finding's rule, its message and its line. -/
def Finding.gist (f : Finding) : String × String × Int := (f.rule.id, f.message, f.line)

def Issue.gist (i : Issue) : String × String × Int := (i.ruleId, i.desc, i.line)

def Issue.isOnCommentText (i : Issue) : Bool := i.ruleId == "0701" || i.ruleId == "0702"

namespace Check.Comment

private theorem isSearched_iff (kind : StatementKind) :
    isSearched kind = true ↔ kind ∉ StatementKind.withoutCommentCheck := by
  cases kind <;> decide

theorem lacksSpace_iff (t : Token) : lacksSpace t.value.toList = true ↔ t.LacksBlank := by
  unfold Token.LacksBlank
  rw [Ne, ← String.toList_inj, show "#".toList = ['#'] from rfl, show "# ".toList = ['#', ' '] from rfl]
  generalize t.value.toList = value
  match value with
  | [] => simp [lacksSpace]
  | [c] =>
    by_cases hc : '#' = c
    · subst hc
      simp [lacksSpace]
    · simp [lacksSpace, hc]
  | c :: next :: rest =>
    by_cases hc : '#' = c
    · subst hc
      by_cases hnext : ' ' = next
      · simp [lacksSpace, ← hnext]
      · simp [lacksSpace, hnext, Ne.symm hnext]
    · have hother : lacksSpace (c :: next :: rest) = false := by
        unfold lacksSpace
        split
        · next heq => exact absurd (List.cons.inj heq).1.symm hc
        · rfl
      simp [hother, hc]

/-! ## What is found -/

def OnText (f : Finding) : Prop :=
  (f.rule = .todoInComment ∨ f.rule = .missingSpaceAfterComment) ∧ f.Fills

theorem fill_leftover (shown : String) (h : shown = "TODO" ∨ shown = "FIXME") :
    Text.fill RuleKey.todoInComment.template [.string shown] =
      .ok ("Found " ++ shown ++ " in comment") := by
  rcases h with rfl | rfl <;> decide

theorem fill_missingSpace : Text.fill RuleKey.missingSpaceAfterComment.template [] =
    .ok "Missing blank space after comment character" := Text.fill_of_no_place (by decide)

private theorem fills_invalidComment (line col : Int) : (found .invalidComment [] line col).Fills := by
  have h : '%' ∉ RuleKey.invalidComment.template.toList := by
    rw [show RuleKey.invalidComment.template = String.ofList _ from String.ofList_append.symm,
      String.toList_ofList]
    decide
  exact ⟨_, Text.fill_of_no_place h⟩

private theorem onText_leftover {word shown : String} (h : shown = "TODO" ∨ shown = "FIXME") {t : Token}
    {f : Finding} (hf : f ∈ leftover word shown t) : OnText f := by
  unfold leftover at hf
  split at hf
  · rw [List.mem_singleton.mp hf]
    exact ⟨Or.inl rfl, _, fill_leftover shown h⟩
  · cases hf

theorem onText_inToken {t : Token} {f : Finding} (hf : f ∈ inToken t) : OnText f := by
  rcases List.mem_append.mp hf with hleft | hspace
  · rcases List.mem_append.mp hleft with htodo | hfixme
    · exact onText_leftover (Or.inl rfl) htodo
    · exact onText_leftover (Or.inr rfl) hfixme
  · split at hspace
    · rw [List.mem_singleton.mp hspace]
      exact ⟨Or.inr rfl, _, fill_missingSpace⟩
    · cases hspace

theorem onText_inStatement {s : Statement} {f : Finding} (hf : f ∈ inStatement s) : OnText f := by
  unfold inStatement at hf
  split at hf
  · obtain ⟨t, -, ht⟩ := List.mem_flatMap.mp hf
    exact onText_inToken ht
  · cases hf

theorem rule_of_mem_inName {n : Node} {f : Finding} (hf : f ∈ inName n) :
    f.rule = .invalidComment ∧ f.Fills := by
  unfold inName at hf
  split at hf
  · split at hf
    · rw [List.mem_singleton.mp hf]
      exact ⟨rfl, fills_invalidComment _ _⟩
    · cases hf
  · cases hf

/-- Every finding is on the text of a comment in a statement, or on the name of a definition. -/
theorem mem_inNode {modern : Bool} {n : Node} {f : Finding} (hf : f ∈ inNode modern n) :
    OnText f ∨ f.rule = .invalidComment ∧ f.Fills := by
  cases n with
  | leaf s => exact Or.inl (onText_inStatement hf)
  | block kind header body orelse close errors =>
    simp only [inNode] at hf
    split at hf
    · exact Or.inr (rule_of_mem_inName hf)
    · cases hf

theorem mem_check {modern : Bool} {d : Document} {f : Finding} (hf : f ∈ check modern d) :
    f.rule ∈ Checker.comments.keys ∧ f.Fills := by
  obtain ⟨n, -, hn⟩ := List.mem_flatMap.mp hf
  rcases mem_inNode hn with ⟨htext | htext, hfills⟩ | ⟨hname, hfills⟩
  · exact ⟨by rw [htext]; decide, hfills⟩
  · exact ⟨by rw [htext]; decide, hfills⟩
  · exact ⟨by rw [hname]; decide, hfills⟩

/-- The findings on the text of comments are those of the statements. -/
theorem filter_check (modern : Bool) (d : Document) :
    ((check modern d).filter fun f => decide (f.rule ≠ .invalidComment)) =
      d.statements.flatMap inStatement := by
  have hnode (n : Node) : ((inNode modern n).filter fun f => decide (f.rule ≠ .invalidComment)) =
      n.statement?.toList.flatMap inStatement := by
    cases n with
    | leaf s =>
      have hall : ∀ f ∈ inStatement s, decide (f.rule ≠ .invalidComment) = true := by
        intro f hf
        rcases (onText_inStatement hf).1 with htext | htext <;> rw [htext] <;> decide
      simpa [inNode, Node.statement?] using hall
    | block kind header body orelse close errors =>
      rw [Node.statement?, Option.toList_none, List.flatMap_nil, List.filter_eq_nil_iff]
      intro f hf
      simp only [inNode] at hf
      split at hf
      · simp [(rule_of_mem_inName hf).1]
      · cases hf
  have hstatements : d.statements = d.visited.filterMap Node.statement? := by
    rw [Document.visited, List.filterMap_flatMap]
    rfl
  rw [check, List.filter_flatMap, hstatements]
  generalize d.visited = nodes
  induction nodes with
  | nil => rfl
  | cons n nodes ih =>
    rw [List.flatMap_cons, ih, hnode]
    cases hn : n.statement? <;> simp [hn]

theorem gist_leftover (word shown : String) (h : shown = "TODO" ∨ shown = "FIXME") (t : Token) :
    (leftover word shown t).map Finding.gist =
      if t.Mentions word then [("0701", "Found " ++ shown ++ " in comment", t.line)] else [] := by
  have hmentions : t.Mentions word ↔ (Text.find word.toList (Text.lower t.value.toList)).isSome = true :=
    (Text.has_iff _ _).symm
  simp only [leftover, hmentions]
  cases Text.find word.toList (Text.lower t.value.toList) with
  | none => simp
  | some place =>
    simp [Finding.gist, Finding.message, found, fill_leftover shown h, Except.toOption, RuleKey.id]

theorem gist_inToken (t : Token) : (inToken t).map Finding.gist = t.due := by
  have hspace : (if lacksSpace t.value.toList then
      [found .missingSpaceAfterComment [] t.line (t.column + 1)] else []).map Finding.gist =
      if t.LacksBlank then [("0702", "Missing blank space after comment character", t.line)]
      else [] := by
    simp only [lacksSpace_iff]
    split
    · simp [Finding.gist, Finding.message, found, fill_missingSpace, Except.toOption, RuleKey.id]
    · rfl
  rw [inToken, List.map_append, List.map_append, gist_leftover _ _ (Or.inl rfl),
    gist_leftover _ _ (Or.inr rfl), hspace]
  rfl

theorem gist_inStatement (s : Statement) :
    (inStatement s).map Finding.gist =
      if s.kind ∈ StatementKind.withoutCommentCheck then [] else s.due := by
  have hsearched := isSearched_iff s.kind
  unfold inStatement
  by_cases h : s.kind ∈ StatementKind.withoutCommentCheck
  · simp_all
  · rw [if_pos (hsearched.mpr h), if_neg h, List.map_flatMap]
    simp only [gist_inToken]
    rfl

end Check.Comment

/-! ## What is reported -/

/-- With 0701 and 0702 on, their issues are what is due for the comments that are looked at. -/
theorem Check.Comment.gist_issues (modern : Bool) (on : RuleKey → Bool) (t : Tuning)
    (htodo : on .todoInComment = true) (hspace : on .missingSpaceAfterComment = true)
    (source : String) (d : Document) :
    ((((check modern d).filter (on ·.rule)).map (·.issue t source)).filter
        Issue.isOnCommentText).map Issue.gist =
      (d.statements.filter fun s =>
        decide (s.kind ∉ StatementKind.withoutCommentCheck)).flatMap Statement.due := by
  have hgist : (Issue.gist ∘ fun f : Finding => f.issue t source) = Finding.gist := rfl
  have hkept : ((check modern d).filter (on ·.rule)).filter
      (Issue.isOnCommentText ∘ fun f : Finding => f.issue t source) =
        (check modern d).filter fun f => decide (f.rule ≠ .invalidComment) := by
    rw [List.filter_filter]
    apply List.filter_congr
    intro f hf
    have hrule : f.rule = .todoInComment ∨ f.rule = .missingSpaceAfterComment ∨
        f.rule = .invalidComment := by simpa [Checker.keys] using (mem_check hf).1
    rcases hrule with hrule | hrule | hrule
    · simp [hrule, htodo, Issue.isOnCommentText, Finding.issue, RuleKey.id]
    · simp [hrule, hspace, Issue.isOnCommentText, Finding.issue, RuleKey.id]
    · simp [hrule, Issue.isOnCommentText, Finding.issue, RuleKey.id]
  rw [List.filter_map, List.map_map, hgist, hkept, filter_check, List.map_flatMap]
  simp only [gist_inStatement, flatMap_filter, decide_not, Bool.not_eq_true', decide_eq_false_iff_not,
    ite_not]

namespace Options

open Check.Comment

/-- Where todo-in-comment (0701) and missing-space-after-comment (0702) are on, the checker reports what is
due for the comments in all statements but those of the kinds that it passes over. So it reports what is due
for all comments, and nothing else, exactly if nothing is due for the comments in those. -/
theorem comments_reported_iff (o : Options) {host : Host} {notes : List String} {s : Setup}
    (h : o.setup host = (notes, .ok s)) (htodo : s.linter.registry.enables "0701" = true)
    (hspace : s.linter.registry.enables "0702" = true) (subject : Subject) :
    ∃ issues : List Issue, s.linter.scan .comments subject = .ok issues ∧
      (issues.filter Issue.isOnCommentText).map Issue.gist =
        (subject.document.statements.filter fun st =>
          decide (st.kind ∉ StatementKind.withoutCommentCheck)).flatMap Statement.due ∧
      ((issues.filter Issue.isOnCommentText).map Issue.gist =
          subject.document.statements.flatMap Statement.due ↔
        ∀ st ∈ subject.document.statements, st.kind ∈ StatementKind.withoutCommentCheck →
          st.due = []) := by
  obtain ⟨-, t, -, hlinter⟩ := setup_ok_iff.mp h
  have htodo' : o.selection.picks .todoInComment = true := (enables_eq_picks h _).symm.trans htodo
  have hspace' : o.selection.picks .missingSpaceAfterComment = true :=
    (enables_eq_picks h _).symm.trans hspace
  have hscan : s.linter.scan .comments subject = .ok (((check host.modern subject.document).filter
      (o.selection.picks ·.rule)).map (·.issue t subject.fileName)) := by
    rw [hlinter, Linter.scan_tuned, Linter.outcome]
    have hissues := Checker.comments.issuesOf_of_fills host o.selection.picks t subject.fileName
      .none fun f hf => @mem_check host.modern subject.document f hf
    refine hissues.trans ?_
    rw [List.filter_eq_self.mpr]
    intro i _
    simp [Disablers.covers, Disablers.none]
  have hreported := gist_issues host.modern o.selection.picks t htodo' hspace' subject.fileName
    subject.document
  refine ⟨_, hscan, hreported, ?_⟩
  rw [hreported, flatMap_filter_eq_iff]
  simp

end Options

def Subject.withComment (kind : StatementKind) : Subject :=
  ⟨"a.robot", .text [], ⟨none, [⟨.testCases, none,
    [.block .testCase ⟨.testCaseName, [⟨.testCaseName, "Test", 2, 0⟩], []⟩
      [.leaf ⟨kind, [⟨.name, "Log", 3, 18⟩, ⟨.comment, "#todo later", 3, 23⟩], []⟩] none none []]⟩]⟩⟩

def Subject.dueWithComment : List (String × String × Int) :=
  [("0701", "Found TODO in comment", 3), ("0702", "Missing blank space after comment character", 3)]

theorem Subject.due_withComment (kind : StatementKind) :
    (Subject.withComment kind).document.statements.flatMap Statement.due = dueWithComment := by
  have hstatements : (Subject.withComment kind).document.statements =
      [⟨.testCaseName, [⟨.testCaseName, "Test", 2, 0⟩], []⟩,
        ⟨kind, [⟨.name, "Log", 3, 18⟩, ⟨.comment, "#todo later", 3, 23⟩], []⟩] := rfl
  have hdue : Token.due ⟨.comment, "#todo later", 3, 23⟩ = dueWithComment := by decide
  simp [hstatements, Statement.due, Statement.tokensOf, hdue]

namespace Options

/-- A comment after the setup of a test case is reported in full. -/
theorem comments_reported_iff_setup :
    ∃ (s : Setup) (issues : List Issue), standard.setup .plain = ([], .ok s) ∧
      s.linter.registry.enables "0701" = true ∧ s.linter.registry.enables "0702" = true ∧
      s.linter.scan .comments (.withComment .setup) = .ok issues ∧
      (issues.filter Issue.isOnCommentText).map Issue.gist = Subject.dueWithComment := by
  have hsetup := setup_standard .plain
  have htodo := enables_standard hsetup .todoInComment
  have hspace := enables_standard hsetup .missingSpaceAfterComment
  obtain ⟨issues, hissues, -, hall⟩ :=
    comments_reported_iff standard hsetup htodo hspace (.withComment .setup)
  rw [Subject.due_withComment] at hall
  refine ⟨_, issues, hsetup, htodo, hspace, hissues, hall.mpr ?_⟩
  intro st hst hkind
  have hname : st = ⟨.testCaseName, [⟨.testCaseName, "Test", 2, 0⟩], []⟩ := by
    rcases List.mem_cons.mp hst with rfl | hsecond
    · rfl
    · rw [List.mem_singleton.mp hsecond] at hkind
      exact absurd hkind (by decide)
  rw [hname]
  rfl

/-- Nothing is reported for the same comment after the teardown. -/
theorem comment_after_teardown_passed_over :
    ∃ s : Setup, standard.setup .plain = ([], .ok s) ∧
      s.linter.registry.enables "0701" = true ∧ s.linter.registry.enables "0702" = true ∧
      (Subject.withComment .teardown).document.statements.flatMap Statement.due =
        Subject.dueWithComment ∧
      s.linter.scan .comments (.withComment .teardown) = .ok [] := by
  have hsetup := setup_standard .plain
  refine ⟨_, hsetup, enables_standard hsetup .todoInComment,
    enables_standard hsetup .missingSpaceAfterComment, Subject.due_withComment .teardown, ?_⟩
  rw [Linter.scan_tuned]
  rfl

end Options

end SuiteLint
