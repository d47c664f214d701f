import SuiteLint.Proofs.RuleReports
import SuiteLint.Proofs.VariableForms

/-!
# Variables that a call assigns to twice

The targets of a call are compared (0812) by the compared forms of their texts, assignment marks included. So
a target is reported if an earlier one has the same name and, like it, a mark or none.
-/

namespace SuiteLint

/-! ## Picking by what comes before -/

section

variable {α : Type} {p q : List α → α → Bool}

def pickedAfter (p : List α → α → Bool) (before : List α) : List α → List α
  | [] => []
  | x :: xs => (if p before x then [x] else []) ++ pickedAfter p (before ++ [x]) xs

theorem forall_split_cons {P : List α → α → Prop} {y : α} {ys : List α} :
    (∀ front x back, y :: ys = front ++ x :: back → P front x) ↔
      P [] y ∧ ∀ front x back, ys = front ++ x :: back → P (y :: front) x := by
  constructor
  · intro h
    refine ⟨h [] y ys rfl, fun front x back hys => ?_⟩
    exact h (y :: front) x back (by rw [hys]; rfl)
  · rintro ⟨hfirst, hrest⟩ front x back hys
    cases front with
    | nil =>
      obtain ⟨rfl, -⟩ := List.cons.inj hys
      exact hfirst
    | cons z front =>
      obtain ⟨rfl, hrestEq⟩ := List.cons.inj hys
      exact hrest front x back hrestEq

theorem pickedAfter_sublist {before xs : List α} (h : ∀ front x back, xs = front ++ x :: back →
      p (before ++ front) x = true → q (before ++ front) x = true) :
    (pickedAfter p before xs).Sublist (pickedAfter q before xs) := by
  induction xs generalizing before with
  | nil => exact List.Sublist.refl _
  | cons y ys ih =>
    rw [forall_split_cons, List.append_nil] at h
    refine List.Sublist.append ?_ (ih fun front x back hys => ?_)
    · by_cases hp : p before y = true
      · rw [if_pos hp, if_pos (h.1 hp)]
      · rw [if_neg hp]
        exact List.nil_sublist _
    · simpa using h.2 front x back hys

/-- A test that picks no more than another picks the same exactly if it picks all that the other does. -/
theorem pickedAfter_eq_iff {before xs : List α} (h : ∀ front x back, xs = front ++ x :: back →
      p (before ++ front) x = true → q (before ++ front) x = true) :
    pickedAfter p before xs = pickedAfter q before xs ↔
      ∀ front x back, xs = front ++ x :: back →
        q (before ++ front) x = true → p (before ++ front) x = true := by
  induction xs generalizing before with
  | nil => simp [pickedAfter]
  | cons y ys ih =>
    rw [forall_split_cons, List.append_nil] at h
    have hrest : ∀ front x back, ys = front ++ x :: back →
        p (before ++ [y] ++ front) x = true → q (before ++ [y] ++ front) x = true := by
      intro front x back hys
      simpa using h.2 front x back hys
    have hshort := (pickedAfter_sublist hrest).length_le
    have htail := ih hrest
    simp only [List.append_assoc, List.singleton_append] at htail
    rw [forall_split_cons, List.append_nil, ← htail, pickedAfter, pickedAfter]
    by_cases hq : q before y = true
    · rw [if_pos hq]
      by_cases hp : p before y = true
      · simp [hp]
      · rw [if_neg hp]
        constructor
        · intro heq
          have := congrArg List.length heq
          simp only [List.nil_append, List.length_append, List.length_singleton] at this
          omega
        · intro hall
          exact absurd (hall.1 hq) hp
    · rw [if_neg hq, if_neg (mt h.1 hq)]
      simp [hq]

private theorem pickedAfter_congr {before xs : List α} (h : ∀ front x back, xs = front ++ x :: back →
      p (before ++ front) x = q (before ++ front) x) :
    pickedAfter p before xs = pickedAfter q before xs :=
  (pickedAfter_eq_iff fun front x back hxs hp => h front x back hxs ▸ hp).mpr
    fun front x back hxs hq => h front x back hxs ▸ hq

theorem pickedAfter_append (p : List α → α → Bool) (before xs ys : List α) :
    pickedAfter p before (xs ++ ys) = pickedAfter p before xs ++ pickedAfter p (before ++ xs) ys := by
  induction xs generalizing before with
  | nil => simp [pickedAfter]
  | cons x xs ih => simp [pickedAfter, ih]

theorem pickedAfter_eq_nil {xs : List α} (h : ∀ before, ∀ x ∈ xs, p before x = false)
    (before : List α) : pickedAfter p before xs = [] := by
  induction xs generalizing before with
  | nil => rfl
  | cons x xs ih =>
    have hx := h before x List.mem_cons_self
    rw [pickedAfter, hx, ih fun before y hy => h before y (List.mem_cons_of_mem x hy)]
    rfl

end

namespace Check.Duplicate

theorem repeatedTokens_eq (name : Token → String) {seen : List String} {before : List Token}
    (hseen : ∀ k, k ∈ seen ↔ ∃ u ∈ before, name u = k) (ts : List Token) :
    repeatedTokens name seen ts =
      pickedAfter (fun before t => before.any (name · = name t)) before ts := by
  induction ts generalizing seen before with
  | nil => rfl
  | cons t ts ih =>
    have hpicked : seen.contains (name t) = before.any (name · = name t) := by
      rw [Bool.eq_iff_iff]
      simp [hseen]
    rw [repeatedTokens, pickedAfter, ← hpicked]
    split
    · next hrepeated =>
      -- What a repeated token is named by is known already.
      rw [List.singleton_append, ih]
      intro k
      rw [hseen]
      simp only [List.contains_iff_mem, hseen] at hrepeated
      obtain ⟨u, hu, hname⟩ := hrepeated
      constructor
      · rintro ⟨v, hv, hk⟩
        exact ⟨v, List.mem_append_left _ hv, hk⟩
      · rintro ⟨v, hv, hk⟩
        rcases List.mem_append.mp hv with hv | hv
        · exact ⟨v, hv, hk⟩
        · exact ⟨u, hu, by rw [hname, ← hk, List.mem_singleton.mp hv]⟩
    · rw [List.nil_append, ih]
      intro k
      simp only [List.mem_append, List.mem_cons, List.not_mem_nil, or_false, hseen]
      constructor
      · rintro (rfl | ⟨v, hv, hk⟩)
        · exact ⟨t, Or.inr rfl, rfl⟩
        · exact ⟨v, Or.inl hv, hk⟩
      · rintro ⟨v, hv | rfl, hk⟩
        · exact Or.inr ⟨v, hv, hk⟩
        · exact Or.inl hk.symm

theorem repeatedTokens_nil (name : Token → String) (ts : List Token) :
    repeatedTokens name [] ts = pickedAfter (fun before t => before.any (name · = name t)) [] ts :=
  repeatedTokens_eq name (by simp) ts

end Check.Duplicate

/-! ## Assignment targets -/

def Name.assignmentMarks : List (List Char) := [[], ['='], [' ', '=']]

namespace Token

def IsTarget (t : Token) : Prop :=
  Name.IsVariable t.value ∧ Name.variableTail t.value ∈ Name.assignmentMarks

instance (t : Token) : Decidable t.IsTarget := inferInstanceAs (Decidable (_ ∧ _))

def isMarked (t : Token) : Bool := !(Name.variableTail t.value).isEmpty

def sameName (t u : Token) : Bool := Name.variableName t.value = Name.variableName u.value

/-- The same name, and a mark behind both variables or behind none. -/
def alike (t u : Token) : Bool := t.sameName u && t.isMarked == u.isMarked

def repeatEntry (t : Token) : String × String × Int × Int :=
  ("0812", "Assigned variable name '" ++ t.value ++ "' is already used", t.line, t.column + 1)

theorem IsTarget.ending_eq {t : Token} (h : t.IsTarget) :
    Name.ending t.value = if t.isMarked then ['}'] else [] := by
  obtain ⟨-, hmark⟩ := h
  rw [isMarked, Name.ending]
  revert hmark
  generalize Name.variableTail t.value = tail
  revert tail
  decide

private theorem IsTarget.normalizedVariable_eq_iff {t u : Token} (ht : t.IsTarget) (hu : u.IsTarget) :
    Name.normalizedVariable t.value = Name.normalizedVariable u.value ↔ t.alike u = true := by
  rw [ht.1.normalizedVariable_eq_iff hu.1, ht.ending_eq, hu.ending_eq, alike, sameName]
  cases t.isMarked <;> cases u.isMarked <;> simp

end Token

namespace Statement

def repeatedTargets (like : Token → Token → Bool) (call : Statement) : List Token :=
  pickedAfter (fun before t => before.any (like · t)) [] (call.tokensOf .assign)

theorem any_sameName_of_alike {before : List Token} {t : Token}
    (h : before.any (·.alike t) = true) : before.any (·.sameName t) = true := by
  simp only [List.any_eq_true, Token.alike, Bool.and_eq_true] at h ⊢
  obtain ⟨u, hu, hname, -⟩ := h
  exact ⟨u, hu, hname⟩

private theorem repeatedTargets_alike_sublist (call : Statement) :
    (call.repeatedTargets Token.alike).Sublist (call.repeatedTargets Token.sameName) :=
  pickedAfter_sublist fun _ _ _ _ => any_sameName_of_alike

/-- Going by names gives the same as going by names and marks exactly if every target with the name of
an earlier one is also marked like an earlier one with that name. -/
theorem repeatedTargets_alike_eq_iff (call : Statement) :
    call.repeatedTargets Token.alike = call.repeatedTargets Token.sameName ↔
      ∀ before t after, call.tokensOf .assign = before ++ t :: after →
        (∃ u ∈ before, u.sameName t = true) → ∃ u ∈ before, u.alike t = true := by
  rw [repeatedTargets, repeatedTargets, pickedAfter_eq_iff fun _ _ _ _ => any_sameName_of_alike]
  simp

end Statement

/-! ## What is reported -/

namespace Check.Duplicate

/-- Every part of a document that is compared can be read: the rows of variables have names, and the
metadata have values. -/
def IsReadable (d : Document) : Prop :=
  (∀ s ∈ d.statementsOf .variableRow, s.name?.isSome = true) ∧
    ∀ s ∈ d.statementsOf .metadata, s.name?.isSome = true → s.longText?.isSome = true

instance (d : Document) : Decidable (IsReadable d) := inferInstanceAs (Decidable (_ ∧ _))

def NamesFirst (f : Finding) : Prop :=
  f.rule ∈ Checker.duplications.keys.take 7 ∧ ∃ name line, f.args = [name, .integer line]

theorem namesFirst_report {α : Type} {rule : RuleKey} (h : rule ∈ Checker.duplications.keys.take 7)
    (name : α → Datum) (line : α → Int) (pairs : List (α × α)) :
    ∀ f ∈ report rule name line pairs, NamesFirst f := by
  intro f hf
  obtain ⟨⟨first, again⟩, -, rfl⟩ := List.mem_map.mp hf
  exact ⟨h, _, _, rfl⟩

theorem isReadable_iff {d : Document} :
    IsReadable d ↔ ((d.statementsOf .variableRow).any (·.name?.isNone) ||
      ((d.statementsOf .metadata).filter (·.name?.isSome)).any (·.longText?.isNone)) = false := by
  rw [Bool.or_eq_false_iff, List.any_eq_false, List.any_eq_false, IsReadable]
  simp [Option.isSome_iff_ne_none]

theorem targets_namesFirst {findings : List Finding} (h : ∀ f ∈ findings, NamesFirst f) :
    RuleKey.duplicatedAssignedVarName.among findings = [] := by
  have hfirst : RuleKey.duplicatedAssignedVarName ∉ Checker.duplications.keys.take 7 := by decide
  exact RuleKey.among_eq_nil fun f hf hrule => hfirst (hrule ▸ (h f hf).1)

/-- A document that can be read is checked: the findings in its statements come first, and all others
name something that occurs twice. -/
theorem check_eq (modern : Bool) {d : Document} (h : IsReadable d) :
    ∃ rest, check modern d = .ok (d.statements.flatMap inStatement ++ rest) ∧
      ∀ f ∈ rest, NamesFirst f := by
  have hread := isReadable_iff.mp h
  simp only [check, hread, Bool.false_eq_true, if_false, List.append_assoc]
  refine ⟨_, rfl, ?_⟩
  simp only [List.forall_mem_append]
  exact ⟨namesFirst_report (by decide) _ _ _, namesFirst_report (by decide) _ _ _,
    namesFirst_report (by decide) _ _ _, namesFirst_report (by decide) _ _ _,
    namesFirst_report (by decide) _ _ _, namesFirst_report (by decide) _ _ _,
    namesFirst_report (by decide) _ _ _⟩

theorem places_namesFirst : ∀ key ∈ Checker.duplications.keys.take 7,
    key.places? = some [.text, .number] := by
  intro key hkey
  simp only [Checker.keys, List.take_succ_cons, List.take_zero, List.mem_cons, List.not_mem_nil,
    or_false] at hkey
  rcases hkey with rfl | rfl | rfl | rfl | rfl | rfl | rfl
  any_goals exact RuleKey.places_of_template rfl rfl
  -- Two of the templates are put together from two texts.
  all_goals exact RuleKey.places_of_template String.ofList_append.symm rfl

private theorem places_inStatement : ∀ key ∈ Checker.duplications.keys.drop 7,
    key.places? = some [.text] := by
  intro key hkey
  simp only [Checker.keys, List.drop_succ_cons, List.drop_zero, List.mem_cons, List.not_mem_nil,
    or_false] at hkey
  rcases hkey with rfl | rfl <;>
    exact RuleKey.places_of_template rfl rfl

theorem NamesFirst.fills {f : Finding} (h : NamesFirst f) :
    f.rule ∈ Checker.duplications.keys ∧ f.Fills := by
  obtain ⟨hkey, name, line, hargs⟩ := h
  have hfills := Finding.fills_of_places rfl hargs (places_namesFirst f.rule hkey)
    (.cons trivial (.cons ⟨line, rfl⟩ .nil))
  exact ⟨List.mem_of_mem_take hkey, hfills⟩

theorem names_inStatement {s : Statement} {f : Finding} (h : f ∈ inStatement s) :
    f.rule ∈ Checker.duplications.keys.drop 7 ∧ ∃ name, f.args = [name] := by
  unfold inStatement at h
  split at h
  · obtain ⟨t, -, rfl⟩ := List.mem_map.mp h
    exact ⟨show RuleKey.duplicatedAssignedVarName ∈ _ by decide, _, rfl⟩
  · obtain ⟨t, -, rfl⟩ := List.mem_map.mp h
    exact ⟨show RuleKey.duplicatedArgumentName ∈ _ by decide, _, rfl⟩
  · cases h

theorem fills_inStatement {s : Statement} {f : Finding} (h : f ∈ inStatement s) :
    f.rule ∈ Checker.duplications.keys ∧ f.Fills := by
  obtain ⟨hkey, name, hargs⟩ := names_inStatement h
  have hfills := Finding.fills_of_places rfl hargs (places_inStatement f.rule hkey) (.cons trivial .nil)
  exact ⟨List.mem_of_mem_drop hkey, hfills⟩

theorem entry_found_target (t : Token) :
    (found .duplicatedAssignedVarName [.string t.value] t.line (t.column + 1)).entry =
      t.repeatEntry := by
  have hmessage : (found .duplicatedAssignedVarName [.string t.value] t.line (t.column + 1)).message =
      "Assigned variable name '" ++ (t.value ++ "' is already used") :=
    Finding.message_of_wording (.plain rfl rfl (.text (.last rfl rfl))) rfl rfl
  rw [Finding.entry, hmessage, Token.repeatEntry, String.append_assoc]
  rfl

/-- In a call the targets like an earlier one are found. -/
theorem entries_inCall {call : Statement} (hkind : call.kind = .keywordCall)
    (htargets : ∀ t ∈ call.tokensOf .assign, t.IsTarget) :
    (RuleKey.duplicatedAssignedVarName.among (inStatement call)).map Finding.entry =
      (call.repeatedTargets Token.alike).map Token.repeatEntry := by
  have hfound : RuleKey.duplicatedAssignedVarName.among (inStatement call) = inStatement call := by
    rw [RuleKey.among, List.filter_eq_self, inStatement, hkind]
    intro f hf
    obtain ⟨t, -, rfl⟩ := List.mem_map.mp hf
    rfl
  have hrepeated : repeatedTokens (fun t => Name.normalizedVariable t.value) [] (call.tokensOf .assign) =
      call.repeatedTargets Token.alike := by
    rw [repeatedTokens_nil, Statement.repeatedTargets]
    apply pickedAfter_congr
    intro front t back hsplit
    rw [hsplit] at htargets
    rw [Bool.eq_iff_iff, List.nil_append, List.any_eq_true, List.any_eq_true]
    apply exists_congr
    intro u
    apply and_congr_right
    intro hu
    rw [decide_eq_true_iff]
    exact (htargets u (by simp [hu])).normalizedVariable_eq_iff (htargets t (by simp))
  rw [hfound, inStatement, hkind]
  simp only [hrepeated, List.map_map]
  exact List.map_congr_left fun t _ => entry_found_target t

theorem among_inOther {s : Statement} (hkind : s.kind ≠ .keywordCall) :
    RuleKey.duplicatedAssignedVarName.among (inStatement s) = [] := by
  apply RuleKey.among_eq_nil
  rw [inStatement]
  split
  · next hcall => exact absurd hcall hkind
  · intro f hf
    obtain ⟨t, -, rfl⟩ := List.mem_map.mp hf
    exact show RuleKey.duplicatedArgumentName ≠ .duplicatedAssignedVarName by decide
  · exact fun f hf => absurd hf List.not_mem_nil

theorem entries_statements {d : Document}
    (htargets : ∀ call ∈ d.statementsOf .keywordCall, ∀ t ∈ call.tokensOf .assign, t.IsTarget) :
    (RuleKey.duplicatedAssignedVarName.among (d.statements.flatMap inStatement)).map Finding.entry =
      (d.statementsOf .keywordCall).flatMap fun call =>
        (call.repeatedTargets Token.alike).map Token.repeatEntry := by
  rw [RuleKey.among, List.filter_flatMap, List.map_flatMap,
    ← (flatMap_filter_eq_iff (fun s : Statement => decide (s.kind = .keywordCall)) _ _).mpr]
  · apply List.flatMap_congr
    intro call hcall
    exact entries_inCall (of_decide_eq_true (List.mem_filter.mp hcall).2) (htargets call hcall)
  · intro s _ hkind
    exact congrArg (List.map Finding.entry) (among_inOther (of_decide_eq_false hkind))

end Check.Duplicate

namespace Options

open Check.Duplicate

/-- Where duplicated-assigned-var-name (0812) is on, the document can be read and its calls assign to
variables, the checker reports each target with the name and the marking, as by `=`, of an earlier one of its
call. It reports each target with the name of an earlier one exactly if every such target is also marked like
an earlier one with that name. -/
theorem repeated_targets_iff (o : Options) {host : Host} {notes : List String} {s : Setup}
    (h : o.setup host = (notes, .ok s)) (hon : s.linter.registry.enables "0812" = true)
    (memory : Memory) (subject : Subject) (hread : IsReadable subject.document)
    (htargets : ∀ call ∈ subject.document.statementsOf .keywordCall,
      ∀ t ∈ call.tokensOf .assign, t.IsTarget) :
    ∃ issues : List Issue, (s.linter.withMemory memory).scan .duplications subject = .ok issues ∧
      (Issue.among [.duplicatedAssignedVarName] issues).map Issue.entry =
        (subject.document.statementsOf .keywordCall).flatMap
          (fun call => (call.repeatedTargets Token.alike).map Token.repeatEntry) ∧
      ((Issue.among [.duplicatedAssignedVarName] issues).map Issue.entry =
          (subject.document.statementsOf .keywordCall).flatMap
            (fun call => (call.repeatedTargets Token.sameName).map Token.repeatEntry) ↔
        ∀ call ∈ subject.document.statementsOf .keywordCall, ∀ before t after,
          call.tokensOf .assign = before ++ t :: after → (∃ u ∈ before, u.sameName t = true) →
            ∃ u ∈ before, u.alike t = true) := by
  obtain ⟨rest, hcheck, hrest⟩ := check_eq host.modern hread
  have hkey : RuleKey.duplicatedAssignedVarName ∈ Checker.duplications.keys := by decide
  have hfills : ∀ f ∈ subject.document.statements.flatMap inStatement ++ rest,
      f.rule ∈ Checker.duplications.keys ∧ f.Fills := by
    intro f hf
    rcases List.mem_append.mp hf with hf | hf
    · obtain ⟨st, -, hst⟩ := List.mem_flatMap.mp hf
      exact fills_inStatement hst
    · exact (hrest f hf).fills
  obtain ⟨issues, hissues, hentries⟩ := o.scan_only h memory hkey hon hcheck hfills
  have hreported : (Issue.among [.duplicatedAssignedVarName] issues).map Issue.entry =
      (subject.document.statementsOf .keywordCall).flatMap fun call =>
        (call.repeatedTargets Token.alike).map Token.repeatEntry := by
    rw [hentries, ← entries_statements htargets, RuleKey.among_append, targets_namesFirst hrest, List.append_nil]
  refine ⟨issues, hissues, hreported, ?_⟩
  rw [hreported, flatMap_eq_iff_of_sublist fun call _ => call.repeatedTargets_alike_sublist.map _]
  apply forall₂_congr
  intro call _
  rw [← call.repeatedTargets_alike_eq_iff]
  exact map_eq_iff_of_sublist call.repeatedTargets_alike_sublist _

end Options

def Statement.callTo (line : Int) (targets : List (String × Int)) : Statement :=
  ⟨.keywordCall, targets.map (fun (value, column) => ⟨.assign, value, line, column⟩) ++
    [⟨.keyword, "Log", line, 40⟩], []⟩

def Node.testOf (statements : List Statement) : Node :=
  .block .testCase ⟨.testCaseName, [⟨.testCaseName, "Test", 2, 0⟩], []⟩ (statements.map .leaf)
    none none []

def Subject.withTest (statements : List Statement) : Subject :=
  ⟨"a.robot", .text [], ⟨none, [⟨.testCases, none, [.testOf statements]⟩]⟩⟩

def Subject.repeatedTarget : Subject :=
  .withTest [.callTo 3 [("$\x7ba b\x7d", 4), ("@\x7bA_B\x7d", 14), ("$\x7bc\x7d =", 24)],
    .callTo 4 [("$\x7ba b\x7d", 4), ("$\x7bd\x7d=", 14)]]

def Subject.markedTarget : Subject := .withTest [.callTo 3 [("$\x7ba\x7d", 4), ("$\x7bA\x7d=", 12)]]

namespace Options

open Check.Duplicate

theorem repeated_targets_iff_repeatedTarget :
    ∃ (s : Setup) (issues : List Issue), standard.setup .plain = ([], .ok s) ∧
      s.linter.registry.enables "0812" = true ∧ IsReadable Subject.repeatedTarget.document ∧
      s.linter.scan .duplications .repeatedTarget = .ok issues ∧
      (Issue.among [.duplicatedAssignedVarName] issues).map Issue.entry =
        [("0812", "Assigned variable name '@\x7bA_B\x7d' is already used", 3, 15)] ∧
      (Subject.repeatedTarget.document.statementsOf .keywordCall).flatMap
          (fun call => (call.repeatedTargets Token.sameName).map Token.repeatEntry) =
        [("0812", "Assigned variable name '@\x7bA_B\x7d' is already used", 3, 15)] := by
  have hsetup := setup_standard .plain
  have hon := enables_standard hsetup .duplicatedAssignedVarName
  have hread : IsReadable Subject.repeatedTarget.document := by decide +kernel
  obtain ⟨issues, hissues, hreported, -⟩ := repeated_targets_iff standard hsetup hon
    .blank .repeatedTarget hread (by decide +kernel)
  refine ⟨_, issues, hsetup, hon, hread, hissues, hreported.trans ?_, ?_⟩
  · decide +kernel
  · decide +kernel

/-- A target with a mark is not found to have the name of an earlier one without. -/
theorem marked_target_passed_over :
    ∃ s : Setup, standard.setup .plain = ([], .ok s) ∧ s.linter.registry.enables "0812" = true ∧
      s.linter.scan .duplications .markedTarget = .ok [] ∧
      (Subject.markedTarget.document.statementsOf .keywordCall).flatMap
          (fun call => (call.repeatedTargets Token.sameName).map Token.repeatEntry) =
        [("0812", "Assigned variable name '$\x7bA\x7d=' is already used", 3, 13)] := by
  have hsetup := setup_standard .plain
  refine ⟨_, hsetup, enables_standard hsetup .duplicatedAssignedVarName, ?_, by decide +kernel⟩
  rw [Linter.scan_tuned]
  rfl

end Options

end SuiteLint
