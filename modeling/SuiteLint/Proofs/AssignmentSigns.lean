import SuiteLint.Proofs.RuleReports
import SuiteLint.Proofs.Tallies

/-!
# Signs of assignments that are found out

With `autodetect` the most common sign is expected, of several the first. All assignments count for this, but
only rows of variables without faults and calls with a keyword are judged by it.
-/

namespace SuiteLint

/-! ## Votes -/

/-- An assignment that counts for its sign, and whether it is judged by the outcome. -/
structure Vote where
  token : Token
  judged : Bool

namespace Vote

def sign (v : Vote) : String := Check.Assignment.signOf v.token

def signs (votes : List Vote) : List String := votes.map sign

def blamed (votes : List Vote) : List Vote :=
  votes.filter fun v => v.judged && decide (commonest? (signs votes) ≠ some v.sign)

def Consistent (votes : List Vote) : Prop :=
  ∀ v ∈ votes, v.judged = true → ∀ w ∈ votes, w.judged = true → w.sign = v.sign

instance (votes : List Vote) : Decidable (Consistent votes) :=
  inferInstanceAs (Decidable (∀ v ∈ votes, _))

/-- Of consistent votes none is blamed exactly if no vote that is not judged outdoes one that is. -/
theorem blamed_eq_nil_iff {votes : List Vote} (h : Consistent votes) :
    blamed votes = [] ↔ ∀ v ∈ votes, v.judged = true → ∀ w ∈ votes, w.judged = false →
      ¬ Outdoes (signs votes) w.sign v.sign := by
  have hmem {v : Vote} (hv : v ∈ votes) : v.sign ∈ signs votes := List.mem_map_of_mem hv
  have hmost : blamed votes = [] ↔
      ∀ v ∈ votes, v.judged = true → commonest? (signs votes) = some v.sign := by
    rw [blamed, List.filter_eq_nil_iff]
    simp
  rw [hmost]
  apply forall₃_congr
  intro v hv hjudged
  rw [commonest?_eq_some_iff]
  constructor
  · rintro ⟨-, hleast⟩ w hw -
    exact hleast w.sign (hmem hw)
  · intro hleast
    refine ⟨hmem hv, fun sign hsign => ?_⟩
    obtain ⟨w, hw, rfl⟩ := List.mem_map.mp hsign
    cases hother : w.judged with
    | true =>
      rw [h v hv hjudged w hw hother]
      unfold Outdoes
      omega
    | false => exact hleast w hw hother

end Vote

/-- Where assignments stand: in calls of keywords, or in the rows of sections for variables. -/
inductive AssignmentPlace where
  | call | row
  deriving DecidableEq

namespace AssignmentPlace

open Check.Assignment

def rule : AssignmentPlace → RuleKey
  | call => .inconsistentAssignment
  | row => .inconsistentAssignmentInVariables

def opening : AssignmentPlace → String
  | call => "The assignment sign is not consistent within the file. Expected '"
  | row => "The assignment sign is not consistent inside the variables section. Expected '"

/-- The vote of a call is that of the last variable it assigns to; it is judged if the call has a
keyword. -/
def callVote? (s : Statement) : Option Vote :=
  (lastAssigned? s).map (⟨·, !(s.keyword?.getD "").isEmpty⟩)

def rowVote? (s : Statement) : Option Vote :=
  (s.token? [.variableName]).map (⟨·, s.errors.isEmpty⟩)

def votes (d : Document) : AssignmentPlace → List Vote
  | call => (calls d).filterMap callVote?
  | row => (rows d).filterMap rowVote?

/-- What is said of an assignment with another sign than the common one. -/
def entry (place : AssignmentPlace) (common : Option String) (v : Vote) :
    String × String × Int × Int :=
  (place.rule.id, place.opening ++ common.getD "" ++ "' but got '" ++ v.sign ++ "' instead",
    v.token.line, v.token.endColumn + 1)

def blamedEntries (place : AssignmentPlace) (d : Document) : List (String × String × Int × Int) :=
  (Vote.blamed (place.votes d)).map (place.entry (commonest? (Vote.signs (place.votes d))))

/-! ## What is found -/

def finding (place : AssignmentPlace) (common : Option String) (v : Vote) : Finding :=
  found place.rule [.string (common.getD ""), .string v.sign] v.token.line (v.token.endColumn + 1)

def findings (place : AssignmentPlace) (d : Document) : List Finding :=
  (Vote.blamed (place.votes d)).map (place.finding (commonest? (Vote.signs (place.votes d))))

theorem fills_finding (place : AssignmentPlace) (common : Option String) (v : Vote) :
    (place.finding common v).Fills ∧ (place.finding common v).entry = place.entry common v := by
  have hfilled : (place.finding common v).Fills ∧ (place.finding common v).message =
      place.opening ++ (common.getD "" ++ ("' but got '" ++ (v.sign ++ "' instead"))) := by
    cases place <;> exact Finding.fills_of_wording (.plain rfl rfl (.text (.plain rfl rfl
      (.text (.last rfl rfl))))) rfl rfl
  refine ⟨hfilled.1, ?_⟩
  rw [Finding.entry, hfilled.2, entry]
  simp only [String.append_assoc]
  rfl

def judged (place : AssignmentPlace) (common : Option String) (v : Vote) : List Finding :=
  if v.judged && decide (common ≠ some v.sign) then [place.finding common v] else []

theorem flatMap_judged (place : AssignmentPlace) (common : Option String) (votes : List Vote) :
    votes.flatMap (place.judged common) =
      (votes.filter fun v => v.judged && decide (common ≠ some v.sign)).map (place.finding common) := by
  induction votes with
  | nil => rfl
  | cons v votes ih =>
    rw [List.flatMap_cons, ih, List.filter_cons, judged]
    split <;> rfl

/-- What is found among votes if a sign is asked for. -/
def blame (place : AssignmentPlace) (sign : Option String) (votes : List Vote) : List Finding :=
  sign.elim [] fun sign => votes.flatMap (place.judged (some sign))

private theorem blame_flatMap {α : Type} (place : AssignmentPlace) (sign : Option String) (f : α → List Vote)
    (xs : List α) : place.blame sign (xs.flatMap f) = xs.flatMap fun x => place.blame sign (f x) := by
  cases sign with
  | none => exact (List.flatMap_eq_nil_iff.mpr fun _ _ => rfl).symm
  | some sign => exact List.flatMap_assoc

theorem exists_of_mem_blame {place : AssignmentPlace} {sign : Option String} {votes : List Vote}
    {f : Finding} (h : f ∈ place.blame sign votes) : ∃ common v, f = place.finding common v := by
  cases sign with
  | none => cases h
  | some sign =>
    obtain ⟨v, -, hf⟩ := List.mem_flatMap.mp h
    exact ⟨some sign, v, by simpa using (List.mem_ite_nil_right.mp hf).2⟩

end AssignmentPlace

namespace Check.Assignment

open AssignmentPlace

theorem prevailing?_cases (signs : List String) :
    prevailing? signs = commonest? signs ∨
      prevailing? signs = none ∧ ∀ sign ∈ signs, commonest? signs = some sign := by
  have hcounts := Tally.counts_ofList signs
  simp only [prevailing?]
  split
  · exact Or.inl hcounts.mostCommon?_eq
  · next hfew =>
    refine Or.inr ⟨rfl, fun sign hsign => commonest?_of_forall_eq hsign fun other hother => ?_⟩
    have hkey := (hcounts.mem_keys_iff sign).mpr hsign
    have hone : (Tally.ofList signs).length = 1 := by
      have := List.length_pos_of_mem hkey
      rw [List.length_map] at this
      omega
    exact hcounts.eq_of_length_eq_one hone hother hsign

theorem blame_prevailing? (place : AssignmentPlace) (votes : List Vote) :
    place.blame (prevailing? (Vote.signs votes)) votes =
      (Vote.blamed votes).map (place.finding (commonest? (Vote.signs votes))) := by
  rw [Vote.blamed, ← flatMap_judged, blame]
  rcases prevailing?_cases (Vote.signs votes) with hsame | ⟨hnot, hone⟩
  · rw [hsame]
    cases hcommon : commonest? (Vote.signs votes) with
    | none =>
      rw [List.map_eq_nil_iff.mp (eq_nil_of_commonest?_eq_none hcommon)]
      rfl
    | some sign => rfl
  · rw [hnot, Option.elim_none, eq_comm, List.flatMap_eq_nil_iff]
    intro v hv
    rw [judged, hone v.sign (List.mem_map_of_mem hv)]
    simp

/-! ## Calls -/

private theorem signs_calls (d : Document) :
    ((calls d).filterMap lastAssigned?).map signOf = Vote.signs (votes d .call) := by
  simp only [Vote.signs, votes, List.map_filterMap, callVote?, Option.map_map]
  rfl

theorem judge_eq_judged (place : AssignmentPlace) (sign : String) (t : Token) :
    judge place.rule sign t = place.judged (some sign) ⟨t, true⟩ := by
  simp only [judge, judged, Bool.true_and, decide_not, Bool.not_eq_true', decide_eq_false_iff_not,
    Option.some.injEq, eq_comm (a := sign)]
  rw [ite_not]
  rfl

theorem flatMap_filterMap_eq {α β γ : Type} (f : α → Option β) (g : β → List γ) (xs : List α) :
    (xs.filterMap f).flatMap g = xs.flatMap fun x => (f x).toList.flatMap g := by
  rw [List.filterMap_eq_flatMap_toList, List.flatMap_assoc]

theorem inCall_eq (sign : String) (s : Statement) :
    inCall sign s = (callVote? s).toList.flatMap (AssignmentPlace.call.judged (some sign)) := by
  unfold inCall callVote?
  cases lastAssigned? s with
  | none => simp
  | some t =>
    cases hkeyword : (s.keyword?.getD "").isEmpty with
    | true => simp [judged]
    | false => simp [← judge_eq_judged, rule]

private theorem inCalls_eq (calls : List Statement) (sign : Option String) :
    inCalls calls sign = AssignmentPlace.call.blame sign (calls.filterMap callVote?) := by
  cases sign with
  | none => rfl
  | some sign => rw [inCalls, blame, Option.elim_some, flatMap_filterMap_eq, funext (inCall_eq sign)]

/-! ## Rows -/

theorem mapM_rowToken (ss : List Statement) :
    ss.mapM rowToken =
      if ∀ s ∈ ss, (s.token? [.variableName]).isSome = true then
        .ok (ss.filterMap (·.token? [.variableName]))
      else .error .absentPart := by
  induction ss with
  | nil => rfl
  | cons s ss ih =>
    rw [List.mapM_cons, ih, rowToken]
    cases htoken : s.token? [.variableName] with
    | none => simp [htoken, bind, Except.bind]
    | some t =>
      simp only [List.forall_mem_cons, htoken, Option.isSome_some, true_and, List.filterMap_cons]
      by_cases hall : ∀ s ∈ ss, (s.token? [.variableName]).isSome = true
      · rw [if_pos hall, if_pos hall]
        rfl
      · rw [if_neg hall, if_neg hall]
        rfl

private theorem signs_rows (d : Document) :
    ((rows d).filterMap (·.token? [.variableName])).map signOf = Vote.signs (votes d .row) := by
  simp only [Vote.signs, votes, List.map_filterMap, rowVote?, Option.map_map]
  rfl

theorem inRow_eq (sign : String) {s : Statement} (h : (s.token? [.variableName]).isSome = true) :
    inRow sign s = .ok ((rowVote? s).toList.flatMap (AssignmentPlace.row.judged (some sign))) := by
  obtain ⟨t, ht⟩ := Option.isSome_iff_exists.mp h
  unfold inRow rowVote? rowToken
  rw [ht]
  cases herrors : s.errors.isEmpty with
  | true => simp [← judge_eq_judged, rule, bind, Except.bind, pure, Except.pure]
  | false => simp [judged]

def HasRowTokens (d : Document) : Prop :=
  ∀ s ∈ rows d, (s.token? [.variableName]).isSome = true

instance (d : Document) : Decidable (HasRowTokens d) :=
  inferInstanceAs (Decidable (∀ s ∈ rows d, _))

theorem inRows_eq {rows : List Statement} (h : ∀ s ∈ rows, (s.token? [.variableName]).isSome = true)
    (sign : Option String) :
    inRows rows sign = .ok (AssignmentPlace.row.blame sign (rows.filterMap rowVote?)) := by
  cases sign with
  | none => rfl
  | some sign =>
    rw [inRows, gather_eq_ok fun s hs => inRow_eq sign (h s hs), blame, Option.elim_some,
      flatMap_filterMap_eq]

/-! ## The whole check -/

def DetectsSigns (vs : Values) : Prop :=
  ∀ place : AssignmentPlace, vs.text (place.rule.slot "assignment_sign_type") = "autodetect"

theorem expected_of_detectsSigns {vs : Values} (hauto : DetectsSigns vs) (d : Document) :
    expected vs d =
      if HasRowTokens d then
        .ok (prevailing? (Vote.signs (votes d .call)), prevailing? (Vote.signs (votes d .row)))
      else .error .absentPart := by
  have hcall : vs.text (RuleKey.inconsistentAssignment.slot "assignment_sign_type") = "autodetect" :=
    hauto .call
  have hrow : vs.text (RuleKey.inconsistentAssignmentInVariables.slot "assignment_sign_type") =
      "autodetect" := hauto .row
  have htokens : (rows d).mapM rowToken =
      if HasRowTokens d then .ok ((rows d).filterMap (·.token? [.variableName]))
      else .error .absentPart := mapM_rowToken (rows d)
  simp only [expected, detect, hcall, hrow, htokens, signs_calls, decide_true, Bool.true_or, if_true]
  split
  · rw [← signs_rows]
    rfl
  · rfl

/-- The votes of one section. -/
def votesIn (s : Section) : AssignmentPlace → List Vote
  | .call => (callsIn s).filterMap callVote?
  | .row => (rowsIn s).filterMap rowVote?

private theorem votes_eq (d : Document) (place : AssignmentPlace) :
    place.votes d = d.sections.flatMap (votesIn · place) := by
  cases place <;> exact List.filterMap_flatMap

/-- What is found in a document, section by section. -/
def foundIn (d : Document) : List Finding :=
  let blamed (place : AssignmentPlace) (s : Section) :=
    place.blame (prevailing? (Vote.signs (place.votes d))) (votesIn s place)
  d.sections.flatMap fun s => blamed .call s ++ blamed .row s

theorem check_of_detectsSigns {vs : Values} (hauto : DetectsSigns vs) (d : Document) :
    check vs d = if HasRowTokens d then .ok (foundIn d) else .error .absentPart := by
  rw [check, expected_of_detectsSigns hauto]
  split
  · next htokens =>
    refine gather_eq_ok fun s hs => ?_
    rw [inSection, inCalls_eq, inRows_eq fun st hst => htokens st (List.mem_flatMap.mpr ⟨s, hs, hst⟩)]
    rfl
  · rfl

end Check.Assignment

namespace AssignmentPlace

open Check.Assignment

theorem rule_mem (place : AssignmentPlace) : place.rule ∈ Checker.assignmentSigns.keys := by
  cases place <;> decide

private theorem exists_of_mem_foundIn {d : Document} {f : Finding} (h : f ∈ foundIn d) :
    ∃ (place : AssignmentPlace) (common : Option String) (v : Vote), f = place.finding common v := by
  obtain ⟨s, -, hf⟩ := List.mem_flatMap.mp h
  rcases List.mem_append.mp hf with hf | hf
  · exact ⟨call, exists_of_mem_blame hf⟩
  · exact ⟨row, exists_of_mem_blame hf⟩

theorem fills_of_mem_foundIn {d : Document} {f : Finding} (h : f ∈ foundIn d) :
    f.rule ∈ Checker.assignmentSigns.keys ∧ f.Fills := by
  obtain ⟨place, common, v, rfl⟩ := exists_of_mem_foundIn h
  exact ⟨place.rule_mem, (place.fills_finding common v).1⟩

theorem among_foundIn (place : AssignmentPlace) (d : Document) :
    place.rule.among (foundIn d) = place.findings d := by
  have hown (sign : Option String) (votes : List Vote) :
      place.rule.among (place.blame sign votes) = place.blame sign votes := by
    apply List.filter_eq_self.mpr
    intro f hf
    obtain ⟨common, v, rfl⟩ := exists_of_mem_blame hf
    exact decide_eq_true rfl
  have hother {other : AssignmentPlace} (hne : other.rule ≠ place.rule) (sign : Option String)
      (votes : List Vote) : place.rule.among (other.blame sign votes) = [] := by
    apply RuleKey.among_eq_nil
    intro f hf
    obtain ⟨common, v, rfl⟩ := exists_of_mem_blame hf
    exact hne
  have hsections : place.rule.among (foundIn d) = d.sections.flatMap fun s =>
      place.blame (prevailing? (Vote.signs (place.votes d))) (votesIn s place) := by
    refine List.filter_flatMap.trans (List.flatMap_congr fun s _ => ?_)
    refine (RuleKey.among_append ..).trans ?_
    cases place with
    | call => rw [hown, hother (by decide), List.append_nil]
    | row => rw [hown, hother (by decide), List.nil_append]
  rw [hsections, ← blame_flatMap, ← votes_eq, blame_prevailing?]
  rfl

private theorem entries_findings (place : AssignmentPlace) (d : Document) :
    (place.findings d).map Finding.entry = place.blamedEntries d := by
  rw [findings, blamedEntries, List.map_map]
  exact List.map_congr_left fun v _ => (place.fills_finding _ v).2

end AssignmentPlace

namespace Options

open Check.Assignment

section

variable (o : Options) {host : Host} {notes : List String} {s : Setup}
  (h : o.setup host = (notes, .ok s))
  (hauto : ∀ place : AssignmentPlace, (s.linter.valuesFor place.rule).text
    (place.rule.slot "assignment_sign_type") = "autodetect")
  (memory : Memory) (subject : Subject)
include h hauto

theorem check_assignmentSigns (place : AssignmentPlace) :
    check (s.linter.valuesFor place.rule) subject.document =
      if HasRowTokens subject.document then .ok (foundIn subject.document)
      else .error .absentPart := by
  apply check_of_detectsSigns
  intro other
  rw [o.valuesFor_eq h place.rule_mem other.rule_mem]
  exact hauto other

theorem scan_assignmentSigns_iff :
    (∃ issues, (s.linter.withMemory memory).scan .assignmentSigns subject = .ok issues) ↔
      HasRowTokens subject.document := by
  have hkey := AssignmentPlace.call.rule_mem
  have hcheck := o.check_assignmentSigns h hauto subject .call
  by_cases htokens : HasRowTokens subject.document
  · rw [if_pos htokens] at hcheck
    obtain ⟨issues, hissues, -⟩ := o.scan_each h memory hkey hcheck
      fun f hf => AssignmentPlace.fills_of_mem_foundIn hf
    exact ⟨fun _ => htokens, fun _ => ⟨issues, hissues⟩⟩
  · rw [if_neg htokens] at hcheck
    rw [o.scan_broken h memory hkey hcheck]
    simp [htokens]

theorem scan_assignmentSigns {issues : List Issue}
    (hissues : (s.linter.withMemory memory).scan .assignmentSigns subject = .ok issues)
    {place : AssignmentPlace} (hon : s.linter.registry.enables place.rule.id = true) :
    (Issue.among [place.rule] issues).map Issue.entry = place.blamedEntries subject.document := by
  have htokens := (o.scan_assignmentSigns_iff h hauto memory subject).mp ⟨issues, hissues⟩
  have hcheck := o.check_assignmentSigns h hauto subject place
  rw [if_pos htokens] at hcheck
  obtain ⟨issues', hissues', hentries⟩ := o.scan_each h memory place.rule_mem hcheck
    fun f hf => AssignmentPlace.fills_of_mem_foundIn hf
  obtain rfl := Except.ok.inj (hissues.symm.trans hissues')
  rw [hentries place.rule place.rule_mem hon, place.among_foundIn, place.entries_findings]

end

/-- With `autodetect` for inconsistent-assignment (0909) and inconsistent-assignment-in-variables (0910), a
document is judged exactly if every row for a variable has its tokens. Then each assignment is reported that
is judged and has not the most common sign. If all that are judged have one sign, none is reported exactly if
no assignment that is not judged has a sign that outdoes it, as one does that is more common, or as common and
there first. -/
theorem consistent_signs_unblamed_iff (o : Options) {host : Host} {notes : List String} {s : Setup}
    (h : o.setup host = (notes, .ok s))
    (hauto : ∀ place : AssignmentPlace, (s.linter.valuesFor place.rule).text
      (place.rule.slot "assignment_sign_type") = "autodetect")
    (memory : Memory) (subject : Subject) :
    ((∃ issues, (s.linter.withMemory memory).scan .assignmentSigns subject = .ok issues) ↔
        HasRowTokens subject.document) ∧
      ∀ issues, (s.linter.withMemory memory).scan .assignmentSigns subject = .ok issues →
        ∀ place : AssignmentPlace, s.linter.registry.enables place.rule.id = true →
          (Issue.among [place.rule] issues).map Issue.entry = place.blamedEntries subject.document ∧
            (Vote.Consistent (place.votes subject.document) →
              (Issue.among [place.rule] issues = [] ↔
                ∀ v ∈ place.votes subject.document, v.judged = true →
                  ∀ w ∈ place.votes subject.document, w.judged = false →
                    ¬ Outdoes (Vote.signs (place.votes subject.document)) w.sign v.sign)) := by
  refine ⟨o.scan_assignmentSigns_iff h hauto memory subject, fun issues hissues place hon => ?_⟩
  have hreported := o.scan_assignmentSigns h hauto memory subject hissues hon
  refine ⟨hreported, fun hsame => ?_⟩
  rw [← Vote.blamed_eq_nil_iff hsame, ← List.map_eq_nil_iff, hreported, AssignmentPlace.blamedEntries,
    List.map_eq_nil_iff]

end Options

def Node.rowFor (line : Int) (variableText : String) (faults : List String) : Node :=
  .leaf ⟨.variableRow, [⟨.variableName, variableText, line, 0⟩], faults⟩

def Node.assigning (line : Int) (variableText : String) (keywords : List String) : Node :=
  .leaf ⟨.keywordCall, ⟨.assign, variableText, line, 4⟩ :: keywords.map (⟨.keyword, ·, line, 14⟩), []⟩

def Document.ofAssignments (rows calls : List Node) : Document :=
  ⟨none, [⟨.variableRows, none, rows⟩,
    ⟨.testCases, none,
      [.block .testCase ⟨.testCaseName, [⟨.testCaseName, "Test", 6, 0⟩], []⟩ calls none none []]⟩]⟩

/-- The judged calls have one sign, and the one that is not judged is outvoted. Of the rows each has
another sign. -/
def Subject.outvoted : Subject :=
  ⟨"a.robot", .text [], .ofAssignments
    [.rowFor 2 "$\x7ba\x7d =" [], .rowFor 3 "$\x7bb" ["Invalid name."], .rowFor 4 "$\x7bc\x7d=" []]
    [.assigning 7 "$\x7bx\x7d" [], .assigning 8 "$\x7by\x7d =" ["Log"],
      .assigning 9 "$\x7bz\x7d =" ["Log"]]⟩

/-- The first row and the first call are not judged, and their signs are as common as those of the
others. -/
def Subject.outdone : Subject :=
  ⟨"a.robot", .text [], .ofAssignments
    [.rowFor 2 "$\x7bb" ["Invalid name."], .rowFor 3 "$\x7ba\x7d=" []]
    [.assigning 7 "$\x7bx\x7d" [], .assigning 8 "$\x7by\x7d =" ["Log"]]⟩

namespace Options

open Check.Assignment

theorem detects_standard (place : AssignmentPlace) :
    (Linter.valuesFor ⟨.plain, .tuned .plain standard.selection.picks .start, .blank⟩ place.rule).text
      (place.rule.slot "assignment_sign_type") = "autodetect" := by
  rw [Linter.valuesFor_tuned .plain _ _ _ place.rule_mem]
  cases place <;> decide

theorem consistent_signs_unblamed_iff_outvoted :
    ∃ (s : Setup) (issues : List Issue), standard.setup .plain = ([], .ok s) ∧
      (∀ place : AssignmentPlace, (s.linter.valuesFor place.rule).text
        (place.rule.slot "assignment_sign_type") = "autodetect") ∧
      HasRowTokens Subject.outvoted.document ∧
      s.linter.scan .assignmentSigns .outvoted = .ok issues ∧
      s.linter.registry.enables "0909" = true ∧
      Vote.Consistent (AssignmentPlace.call.votes Subject.outvoted.document) ∧
      Issue.among [.inconsistentAssignment] issues = [] ∧
      s.linter.registry.enables "0910" = true ∧
      (Issue.among [.inconsistentAssignmentInVariables] issues).map Issue.entry =
        [("0910", "The assignment sign is not consistent inside the variables section. " ++
          "Expected ' =' but got '=' instead", 4, 6)] := by
  have hsetup := setup_standard .plain
  have htokens : HasRowTokens Subject.outvoted.document := by decide +kernel
  obtain ⟨hiff, hreported⟩ :=
    consistent_signs_unblamed_iff standard hsetup detects_standard .blank .outvoted
  obtain ⟨issues, hissues⟩ := hiff.mpr htokens
  have hon (place : AssignmentPlace) := enables_standard hsetup place.rule
  have hsame : Vote.Consistent (AssignmentPlace.call.votes Subject.outvoted.document) := by
    decide +kernel
  have hcalls := ((hreported issues hissues .call (hon .call)).2 hsame).mpr (by decide +kernel)
  have hrows := (hreported issues hissues .row (hon .row)).1
  refine ⟨_, issues, hsetup, detects_standard, htokens, hissues, hon .call, hsame, hcalls, hon .row,
    hrows.trans ?_⟩
  decide +kernel

/-- Assignments that are not judged bring reports on ones that all have one sign. -/
theorem consistent_signs_blamed_outdone :
    ∃ (s : Setup) (issues : List Issue), standard.setup .plain = ([], .ok s) ∧
      (∀ place : AssignmentPlace, (s.linter.valuesFor place.rule).text
          (place.rule.slot "assignment_sign_type") = "autodetect" ∧
        Vote.Consistent (place.votes Subject.outdone.document)) ∧
      s.linter.scan .assignmentSigns .outdone = .ok issues ∧
      (Issue.among [.inconsistentAssignment] issues).map Issue.entry =
        [("0909", "The assignment sign is not consistent within the file. " ++
          "Expected '' but got ' =' instead", 8, 11)] ∧
      (Issue.among [.inconsistentAssignmentInVariables] issues).map Issue.entry =
        [("0910", "The assignment sign is not consistent inside the variables section. " ++
          "Expected '$\x7bb' but got '=' instead", 3, 6)] := by
  have hsetup := setup_standard .plain
  have htokens : HasRowTokens Subject.outdone.document := by decide +kernel
  obtain ⟨issues, hissues⟩ :=
    (scan_assignmentSigns_iff standard hsetup detects_standard .blank .outdone).mpr htokens
  have hreported (place : AssignmentPlace) := scan_assignmentSigns standard hsetup detects_standard
    .blank .outdone hissues (enables_standard hsetup place.rule)
  refine ⟨_, issues, hsetup, fun place => ⟨detects_standard place, ?_⟩, hissues,
    (hreported .call).trans ?_, (hreported .row).trans ?_⟩
  · cases place <;> decide +kernel
  all_goals decide +kernel

end Options

end SuiteLint
