import SuiteLint.Proofs.RepeatedNames
import SuiteLint.Proofs.SuiteTotals
import SuiteLint.Proofs.VariableOverwriting

/-!
# Where assigned variables are reported

Columns of tokens are counted from zero, and those of issues from one. Two of the rules that point at the
targets of a call (0317, 0812) agree on that, and the third (0316) reports the column of the token.
-/

namespace SuiteLint

/-- A variable that a call assigns to, the kind of section that it stands in, the variables that are known
when it is read, and those before it in the call. -/
structure Target where
  inside : SectionKind
  scope : Check.Variable.Scope
  before : List Token
  token : Token

namespace Target

def breaks (x : Target) : RuleKey → Bool
  | .hyphenInVariableName => x.inside ≠ .variableRows && x.token.value.toList.contains '-'
  | .duplicatedAssignedVarName =>
    x.before.any (fun u => Name.normalizedVariable u.value = Name.normalizedVariable x.token.value)
  | .possibleVariableOverwriting => x.scope.resembles x.token.value
  | _ => false

/-- The line and the column at which a rule points at a target. -/
def place (x : Target) (key : RuleKey) : Int × Int :=
  (x.token.line, if key = .possibleVariableOverwriting then x.token.column else x.token.column + 1)

def Agrees (x : Target) : Prop :=
  ∀ key other, key ≠ other → x.breaks key = true → x.breaks other = true →
    x.place key = x.place other ∧ x.place key = (x.token.line, x.token.column + 1)

theorem eq_of_breaks {x : Target} {key : RuleKey} (h : x.breaks key = true) :
    key = .possibleVariableOverwriting ∨ key = .hyphenInVariableName ∨
      key = .duplicatedAssignedVarName := by
  unfold breaks at h
  split at h
  · exact Or.inr (Or.inl rfl)
  · exact Or.inr (Or.inr rfl)
  · exact Or.inl rfl
  · cases h

theorem agrees_iff (x : Target) :
    x.Agrees ↔ ¬ (x.breaks .possibleVariableOverwriting = true ∧
      (x.breaks .hyphenInVariableName = true ∨ x.breaks .duplicatedAssignedVarName = true)) := by
  have hshifted (key : RuleKey) (hkey : key ≠ .possibleVariableOverwriting) :
      x.place key = (x.token.line, x.token.column + 1) := by rw [place, if_neg hkey]
  constructor
  · rintro hagrees ⟨hsimilar, hother⟩
    have hplace : x.place .possibleVariableOverwriting = (x.token.line, x.token.column + 1) := by
      obtain hhyphen | hagain := hother
      · exact (hagrees _ _ (by decide) hsimilar hhyphen).2
      · exact (hagrees _ _ (by decide) hsimilar hagain).2
    have hcolumn : x.token.column = x.token.column + 1 := congrArg Prod.snd hplace
    omega
  · intro hsilent key other hne hkey hother
    have hapart {key other : RuleKey} (hne : key ≠ other) (hkey : x.breaks key = true)
        (hother : x.breaks other = true) : key ≠ .possibleVariableOverwriting := by
      rintro rfl
      obtain rfl | rfl | rfl := eq_of_breaks hother
      · exact hne rfl
      · exact hsilent ⟨hkey, Or.inl hother⟩
      · exact hsilent ⟨hkey, Or.inr hother⟩
    rw [hshifted key (hapart hne hkey hother), hshifted other (hapart hne.symm hother hkey)]
    exact ⟨rfl, rfl⟩

def places (key : RuleKey) (xs : List Target) : List (Int × Int) :=
  (xs.filter (·.breaks key)).map (·.place key)

@[simp] theorem places_cons (key : RuleKey) (x : Target) (xs : List Target) :
    places key (x :: xs) = (if x.breaks key then [x.place key] else []) ++ places key xs := by
  cases h : x.breaks key <;> simp [places, h]

theorem places_append (key : RuleKey) (xs ys : List Target) :
    places key (xs ++ ys) = places key xs ++ places key ys := by
  rw [places, List.filter_append, List.map_append]
  rfl

end Target

/-! ## The targets of a document -/

def Node.call? (n : Node) : Option Statement := n.statement?.filter (·.kind = .keywordCall)

def Node.targets (n : Node) : List Token := n.call?.elim [] (·.tokensOf .assign)

theorem Section.flatMap_calls {β : Type} (s : Section) (there : List Token → List β)
    (h : there [] = []) :
    (s.statements.filter (·.kind = .keywordCall)).flatMap (fun call => there (call.tokensOf .assign)) =
      s.visited.flatMap fun n => there n.targets := by
  rw [statements, List.filter_filterMap, List.filterMap_eq_flatMap_toList, List.flatMap_assoc]
  apply List.flatMap_congr
  intro n _
  change n.call?.toList.flatMap _ = _
  rw [Node.targets]
  cases n.call? with
  | none => exact h.symm
  | some call => exact List.flatMap_singleton _ _

def Document.placed (d : Document) : List (SectionKind × Node) :=
  d.sections.flatMap fun s => s.visited.map (s.kind, ·)

namespace Check.Variable.Scope

def targetsIn (kind : SectionKind) (s : Scope) (before : List Token) : List Token → List Target
  | [] => []
  | t :: ts => ⟨kind, s, before, t⟩ :: (s.learn t.value).targetsIn kind (before ++ [t]) ts

def targets (s : Scope) : List (SectionKind × Node) → List Target
  | [] => []
  | (kind, n) :: rest => s.targetsIn kind [] n.targets ++ (s.visit n).2.targets rest

private theorem map_token_targetsIn (kind : SectionKind) (s : Scope) (before ts : List Token) :
    (s.targetsIn kind before ts).map Target.token = ts := by
  induction ts generalizing s before with
  | nil => rfl
  | cons t ts ih => rw [targetsIn, List.map_cons, ih]

private theorem map_token_targets (s : Scope) (placed : List (SectionKind × Node)) :
    (s.targets placed).map Target.token = placed.flatMap (·.2.targets) := by
  induction placed generalizing s with
  | nil => rfl
  | cons entry rest ih => rw [targets, List.map_append, map_token_targetsIn, ih, List.flatMap_cons]

theorem places_targets {key : RuleKey} {there : SectionKind → Node → List (Int × Int)}
    (h : ∀ kind s n, Target.places key (targetsIn kind s [] n.targets) = there kind n) (s : Scope)
    (placed : List (SectionKind × Node)) :
    Target.places key (s.targets placed) = placed.flatMap fun entry => there entry.1 entry.2 := by
  induction placed generalizing s with
  | nil => rfl
  | cons entry rest ih => rw [targets, Target.places_append, h, ih, List.flatMap_cons]

end Check.Variable.Scope

theorem Document.flatMap_placed {β : Type} (d : Document) (there : SectionKind → Node → List β) :
    (d.placed.flatMap fun entry => there entry.1 entry.2) =
      d.sections.flatMap fun s => s.visited.flatMap (there s.kind) := by
  simp only [placed, List.flatMap_assoc, List.flatMap_map]

private theorem Document.map_snd_placed (d : Document) : d.placed.map Prod.snd = d.visited := by
  simp [placed, visited, List.map_flatMap, Function.comp_def]

theorem Document.flatMap_calls {β : Type} (d : Document) (there : List Token → List β)
    (h : there [] = []) :
    (d.statementsOf .keywordCall).flatMap (fun call => there (call.tokensOf .assign)) =
      d.placed.flatMap fun entry => there entry.2.targets := by
  rw [d.flatMap_placed fun _ n => there n.targets, statementsOf, statements, List.filter_flatMap,
    List.flatMap_assoc]
  exact List.flatMap_congr fun s _ => s.flatMap_calls there h

/-! ## What is found -/

def Finding.place (f : Finding) : Int × Int := (f.line, f.col)

def Token.shifted (t : Token) : Int × Int := (t.line, t.column + 1)

namespace Check.Variable

namespace Scope

theorem places_assign (kind : SectionKind) (s : Scope) (before ts : List Token) :
    (s.assign ts).1.map Finding.place =
      Target.places .possibleVariableOverwriting (s.targetsIn kind before ts) := by
  induction ts generalizing s before with
  | nil => rfl
  | cons t ts ih =>
    have hbreaks : Target.breaks ⟨kind, s, before, t⟩ .possibleVariableOverwriting =
      s.resembles t.value := rfl
    rw [targetsIn, Target.places_cons, ← ih, Scope.assign, List.map_append, hbreaks]
    cases s.resembles t.value <;> rfl

theorem places_visit (kind : SectionKind) (s : Scope) (n : Node) :
    (s.visit n).1.map Finding.place =
      Target.places .possibleVariableOverwriting (s.targetsIn kind [] n.targets) := by
  cases n with
  | leaf st =>
    rw [visit, Node.targets, Node.call?, Node.statement?, Option.filter_some]
    by_cases hcall : st.kind = .keywordCall
    · rw [if_pos hcall, if_pos (decide_eq_true hcall)]
      exact s.places_assign kind [] _
    · rw [if_neg hcall, if_neg (by simpa using hcall)]
      rfl
  | block kind => cases kind <;> rfl

theorem places_visitAll (s : Scope) (placed : List (SectionKind × Node)) :
    (s.visitAll (placed.map Prod.snd)).1.map Finding.place =
      Target.places .possibleVariableOverwriting (s.targets placed) := by
  induction placed generalizing s with
  | nil => rfl
  | cons entry rest ih =>
    rw [targets, Target.places_append, ← ih, ← s.places_visit entry.1 entry.2, ← List.map_append]
    rfl

theorem places_repeated (kind : SectionKind) (s : Scope) (before ts : List Token) :
    Target.places .duplicatedAssignedVarName (s.targetsIn kind before ts) =
      (pickedAfter (fun before t => before.any fun u =>
        Name.normalizedVariable u.value = Name.normalizedVariable t.value) before ts).map
        Token.shifted := by
  induction ts generalizing s before with
  | nil => rfl
  | cons t ts ih =>
    have hbreaks : Target.breaks ⟨kind, s, before, t⟩ .duplicatedAssignedVarName = before.any fun u =>
      Name.normalizedVariable u.value = Name.normalizedVariable t.value := rfl
    rw [targetsIn, Target.places_cons, ih, pickedAfter, List.map_append, hbreaks]
    split <;> rfl

theorem places_hyphened (kind : SectionKind) (s : Scope) (before ts : List Token) :
    Target.places .hyphenInVariableName (s.targetsIn kind before ts) =
      if kind = .variableRows then []
      else (ts.filter (·.value.toList.contains '-')).map Token.shifted := by
  induction ts generalizing s before with
  | nil => split <;> rfl
  | cons t ts ih =>
    have hbreaks : Target.breaks ⟨kind, s, before, t⟩ .hyphenInVariableName =
      (decide (kind ≠ .variableRows) && t.value.toList.contains '-') := rfl
    rw [targetsIn, Target.places_cons, ih, hbreaks, List.filter_cons]
    by_cases hkind : kind = .variableRows
    · simp [hkind]
    · rw [if_neg hkind, if_neg hkind, decide_eq_true hkind, Bool.true_and]
      cases t.value.toList.contains '-' <;> rfl

end Scope

theorem places_row {n : Node} {here : List Finding} (h : inSectionRow n = .ok here) :
    ∀ f ∈ here, f.rule = .sectionVariableNotUppercase ∧ f.args = [] := by
  unfold inSectionRow at h
  split at h
  · cases h
  · split at h
    · rw [← Except.ok.inj h]
      split
      · exact List.forall_mem_singleton.mpr ⟨rfl, rfl⟩
      · exact List.forall_mem_nil _
    · rw [← Except.ok.inj h]
      exact List.forall_mem_nil _

theorem inCall_spec (st : Statement) :
    ∃ others, inCall st = ((st.tokensOf .assign).filter (·.value.toList.contains '-')).map
        (fun t => found .hyphenInVariableName [] t.line (t.column + 1)) ++ others ∧
      ∀ f ∈ others, f.rule = .nonLocalVariablesShouldBeUppercase ∧ f.args = [] := by
  refine ⟨_, rfl, fun f hf => ?_⟩
  split at hf
  · split at hf
    · split at hf
      · rw [List.mem_singleton.mp hf]
        exact ⟨rfl, rfl⟩
      · cases hf
    · cases hf
  · cases hf

def OnName (f : Finding) : Prop := f.rule ∈ Checker.variableNaming.keys ∧ f.args = []

theorem OnName.fills {f : Finding} (h : OnName f) :
    f.rule ∈ Checker.variableNaming.keys ∧ f.Fills := by
  refine ⟨h.1, Finding.fills_of_plain (fun key hkey => ?_) h⟩
  simp only [Checker.keys, List.mem_cons, List.not_mem_nil, or_false] at hkey
  rcases hkey with rfl | rfl | rfl
  · exact RuleKey.places_of_template rfl rfl
  · exact RuleKey.places_of_template rfl rfl
  · exact RuleKey.places_of_template String.ofList_append.symm rfl

private theorem onName_inCall (st : Statement) : ∀ f ∈ inCall st, OnName f := by
  obtain ⟨others, heq, hothers⟩ := inCall_spec st
  rw [heq, List.forall_mem_append]
  refine ⟨fun f hf => ?_, fun f hf => ?_⟩
  · obtain ⟨t, -, rfl⟩ := List.mem_map.mp hf
    exact ⟨show RuleKey.hyphenInVariableName ∈ _ by decide, rfl⟩
  · exact ⟨by rw [(hothers f hf).1]; decide, (hothers f hf).2⟩

theorem places_inCall (st : Statement) :
    (RuleKey.hyphenInVariableName.among (inCall st)).map Finding.place =
      ((st.tokensOf .assign).filter (·.value.toList.contains '-')).map Token.shifted := by
  obtain ⟨others, heq, hothers⟩ := inCall_spec st
  have hnone : RuleKey.hyphenInVariableName.among others = [] :=
    RuleKey.among_eq_nil fun f hf => by rw [(hothers f hf).1]; decide
  rw [heq, RuleKey.among_append, hnone, List.append_nil, RuleKey.among, List.filter_eq_self.mpr]
  · rw [List.map_map]
    rfl
  · intro f hf
    obtain ⟨t, -, rfl⟩ := List.mem_map.mp hf
    rfl

def hyphenPlaces (kind : SectionKind) (n : Node) : List (Int × Int) :=
  if kind = .variableRows then []
  else (n.targets.filter (·.value.toList.contains '-')).map Token.shifted

theorem inSection_spec {s : Section} {here : List Finding} (h : inSection s = .ok here) :
    (∀ f ∈ here, OnName f) ∧
      (RuleKey.hyphenInVariableName.among here).map Finding.place =
        s.visited.flatMap (hyphenPlaces s.kind) := by
  unfold inSection at h
  split at h
  · next hkind =>
    have hrows := forall_mem_gather (fun n _ here hhere => places_row hhere) h
    have hnone : RuleKey.hyphenInVariableName.among here = [] :=
      RuleKey.among_eq_nil fun f hf => by rw [(hrows f hf).1]; decide
    refine ⟨fun f hf => ⟨by rw [(hrows f hf).1]; decide, (hrows f hf).2⟩, ?_⟩
    rw [hnone, eq_comm, List.map_nil, List.flatMap_eq_nil_iff]
    exact fun n _ => if_pos hkind
  · next hkind =>
    rw [← Except.ok.inj h]
    refine ⟨fun f hf => ?_, ?_⟩
    · obtain ⟨st, -, hst⟩ := List.mem_flatMap.mp hf
      exact onName_inCall st f hst
    · have hplaces : hyphenPlaces s.kind = fun n =>
          (n.targets.filter (·.value.toList.contains '-')).map Token.shifted :=
        funext fun n => if_neg hkind
      rw [hplaces, ← s.flatMap_calls
        (fun ts => (ts.filter (·.value.toList.contains '-')).map Token.shifted) rfl, RuleKey.among,
        List.filter_flatMap, List.map_flatMap]
      exact List.flatMap_congr fun st _ => places_inCall st

theorem checkSimilar_spec (s : Scope) (d : Document) :
    (∀ f ∈ (checkSimilar s d).1, f.rule ∈ Checker.similarVariables.keys ∧ f.Fills) ∧
      (RuleKey.possibleVariableOverwriting.among (checkSimilar s d).1).map Finding.place =
        Target.places .possibleVariableOverwriting (s.targets d.placed) := by
  have hsimilar := onSimilar_visitAll s d.visited
  refine ⟨fun f hf => (hsimilar f hf).fills, ?_⟩
  rw [← Scope.places_visitAll, d.map_snd_placed, RuleKey.among, List.filter_eq_self.mpr]
  · rfl
  · exact fun f hf => decide_eq_true (hsimilar f hf).1

theorem exists_inSection_iff (s : Section) :
    (∃ here, inSection s = .ok here) ↔
      (s.kind = .variableRows → ∀ n ∈ s.body, n.statement?.isSome = true) := by
  have hrow (n : Node) : (∃ here, inSectionRow n = .ok here) ↔ n.statement?.isSome = true := by
    cases n with
    | block => simp [inSectionRow, Node.statement?]
    | leaf st =>
      rw [inSectionRow]
      split <;> simp [Node.statement?]
  unfold inSection
  split
  · next hkind => simp only [exists_gather_iff, hrow, hkind, forall_const]
  · next hkind => simp [hkind]

theorem checkNames_spec {d : Document} {findings : List Finding} (h : checkNames d = .ok findings) :
    (∀ f ∈ findings, OnName f) ∧
      ∀ scope : Scope, (RuleKey.hyphenInVariableName.among findings).map Finding.place =
        Target.places .hyphenInVariableName (scope.targets d.placed) := by
  refine ⟨forall_mem_gather (fun s _ here hhere => (inSection_spec hhere).1) h, fun scope => ?_⟩
  have hthere : ∀ s ∈ d.sections, ∀ here, inSection s = .ok here →
      RuleKey.hyphenInVariableName.among here =
        RuleKey.hyphenInVariableName.among ((inSection s).toOption.getD []) := by
    intro s _ here hhere
    rw [hhere]
    rfl
  have hplaces : ∀ (kind : SectionKind) (s : Scope) (n : Node),
      Target.places .hyphenInVariableName (s.targetsIn kind [] n.targets) = hyphenPlaces kind n :=
    fun kind s n => s.places_hyphened kind [] n.targets
  rw [Scope.places_targets hplaces, d.flatMap_placed, RuleKey.among_gather hthere h, List.map_flatMap]
  apply List.flatMap_congr
  intro s hs
  obtain ⟨here, hhere⟩ := exists_gather_iff.mp ⟨findings, h⟩ s hs
  rw [hhere]
  exact (inSection_spec hhere).2

end Check.Variable

namespace Check.Duplicate

theorem places_inCall {call : Statement} (hkind : call.kind = .keywordCall) :
    (RuleKey.duplicatedAssignedVarName.among (inStatement call)).map Finding.place =
      (pickedAfter (fun before t => before.any fun u =>
        Name.normalizedVariable u.value = Name.normalizedVariable t.value) []
        (call.tokensOf .assign)).map Token.shifted := by
  rw [inStatement, hkind, repeatedTokens_nil, RuleKey.among, List.filter_eq_self.mpr]
  · rw [List.map_map]
    rfl
  · intro f hf
    obtain ⟨t, -, rfl⟩ := List.mem_map.mp hf
    rfl

theorem check_spec {host : Host} {d : Document} {findings : List Finding}
    (h : check host.modern d = .ok findings) :
    (∀ f ∈ findings, f.rule ∈ Checker.duplications.keys ∧ f.Fills) ∧
      ∀ scope : Variable.Scope, (RuleKey.duplicatedAssignedVarName.among findings).map Finding.place =
        Target.places .duplicatedAssignedVarName (scope.targets d.placed) := by
  by_cases hread : IsReadable d
  · obtain ⟨rest, hcheck, hrest⟩ := check_eq host.modern hread
    obtain rfl := Except.ok.inj (hcheck.symm.trans h)
    refine ⟨List.forall_mem_append.mpr ⟨fun f hf => ?_, fun f hf => (hrest f hf).fills⟩,
      fun scope => ?_⟩
    · obtain ⟨st, -, hst⟩ := List.mem_flatMap.mp hf
      exact fills_inStatement hst
    · rw [Variable.Scope.places_targets fun kind s n => s.places_repeated kind [] n.targets,
        ← d.flatMap_calls (fun ts => (pickedAfter (fun before t => before.any fun u =>
          Name.normalizedVariable u.value = Name.normalizedVariable t.value) [] ts).map Token.shifted) rfl,
        RuleKey.among_append, targets_namesFirst hrest, List.append_nil, RuleKey.among, List.filter_flatMap,
        List.map_flatMap, ← (flatMap_filter_eq_iff
          (fun st : Statement => decide (st.kind = .keywordCall)) _ _).mpr]
      · apply List.flatMap_congr
        intro call hcall
        exact places_inCall (of_decide_eq_true (List.mem_filter.mp hcall).2)
      · intro st _ hkind
        exact congrArg (List.map Finding.place) (among_inOther (of_decide_eq_false hkind))
  · cases (check_of_not_isReadable host.modern hread).symm.trans h

end Check.Duplicate

/-! ## What is reported -/

def targetJudges : List (Checker × RuleKey) :=
  [(.variableNaming, .hyphenInVariableName), (.duplications, .duplicatedAssignedVarName),
   (.similarVariables, .possibleVariableOverwriting)]

def Document.IsJudged (d : Document) : Prop :=
  Check.Duplicate.IsReadable d ∧
    ∀ s ∈ d.sections, s.kind = .variableRows → ∀ n ∈ s.body, n.statement?.isSome = true

instance (d : Document) : Decidable d.IsJudged := inferInstanceAs (Decidable (_ ∧ _))

namespace Options

/-- A rule on targets has its issues where the findings of its checker are. -/
theorem scan_places (o : Options) {host : Host} {notes : List String} {s : Setup}
    (h : o.setup host = (notes, .ok s)) (memory : Memory) {subject : Subject} {c : Checker}
    {key : RuleKey} (hkey : key ∈ c.keys) (hon : s.linter.registry.enables key.id = true)
    {run : Except Breakdown (List Finding)}
    (hrun : s.linter.finds host c key subject memory = run)
    {places : List (Int × Int)}
    (hspec : ∀ findings, run = .ok findings → (∀ f ∈ findings, f.rule ∈ c.keys ∧ f.Fills) ∧
      (key.among findings).map Finding.place = places)
    (hgoes : subject.document.IsJudged → ∃ findings, run = .ok findings) :
    (subject.document.IsJudged →
        ∃ issues, (s.linter.withMemory memory).scan c subject = .ok issues) ∧
      ∀ issues, (s.linter.withMemory memory).scan c subject = .ok issues →
        (Issue.among [key] issues).map (fun i => (i.line, i.col)) = places := by
  obtain ⟨hiff, hentries⟩ :=
    o.scan_iff h memory hkey hon hrun fun findings hok => (hspec findings hok).1
  refine ⟨fun hjudged => hiff.mpr (hgoes hjudged), fun issues hissues => ?_⟩
  obtain ⟨findings, hok, hreported⟩ := hentries issues hissues
  have hplaces := congrArg (List.map (·.2.2)) hreported
  rw [List.map_map, List.map_map] at hplaces
  exact hplaces.trans (hspec findings hok).2

theorem scan_targets (o : Options) {host : Host} {notes : List String} {s : Setup}
    (h : o.setup host = (notes, .ok s)) (memory : Memory) (subject : Subject) :
    ∀ judge ∈ targetJudges, s.linter.registry.enables judge.2.id = true →
      (subject.document.IsJudged →
          ∃ issues, (s.linter.withMemory memory).scan judge.1 subject = .ok issues) ∧
        ∀ issues, (s.linter.withMemory memory).scan judge.1 subject = .ok issues →
          (Issue.among [judge.2] issues).map (fun i => (i.line, i.col)) =
            Target.places judge.2 (memory.scope.targets subject.document.placed) := by
  simp only [targetJudges, List.forall_mem_cons, List.not_mem_nil, false_implies, implies_true,
    and_true]
  refine ⟨fun hon => ?_, fun hon => ?_, fun hon => ?_⟩
  · refine o.scan_places h memory (by decide) hon rfl (fun findings hok => ?_) fun hjudged => ?_
    · obtain ⟨hname, hplaces⟩ := Check.Variable.checkNames_spec hok
      exact ⟨fun f hf => (hname f hf).fills, hplaces memory.scope⟩
    · exact exists_gather_iff.mpr fun sec hsec =>
        (Check.Variable.exists_inSection_iff sec).mpr (hjudged.2 sec hsec)
  · refine o.scan_places h memory (by decide) hon rfl (fun findings hok => ?_) fun hjudged => ?_
    · obtain ⟨hfills, hplaces⟩ := Check.Duplicate.check_spec hok
      exact ⟨hfills, hplaces memory.scope⟩
    · obtain ⟨rest, hcheck, -⟩ := Check.Duplicate.check_eq host.modern hjudged.1
      exact ⟨_, hcheck⟩
  · refine o.scan_places h memory (by decide) hon rfl (fun findings hok => ?_) fun _ => ⟨_, rfl⟩
    rw [← Except.ok.inj hok]
    exact Check.Variable.checkSimilar_spec memory.scope subject.document

/-- The rules that point at targets of calls (0316, 0317, 0812), each where it is on, are reported in order
for the targets that break them, which are among the targets of all calls. The rules that a target breaks are
reported at one place, its line and the column after its own, unless one of several is
possible-variable-overwriting (0316). -/
theorem target_places_iff (o : Options) {host : Host} {notes : List String} {s : Setup}
    (h : o.setup host = (notes, .ok s)) (memory : Memory) (subject : Subject) :
    (∀ judge ∈ targetJudges, s.linter.registry.enables judge.2.id = true →
      (subject.document.IsJudged →
          ∃ issues, (s.linter.withMemory memory).scan judge.1 subject = .ok issues) ∧
        ∀ issues, (s.linter.withMemory memory).scan judge.1 subject = .ok issues →
          (Issue.among [judge.2] issues).map (fun i => (i.line, i.col)) =
            Target.places judge.2 (memory.scope.targets subject.document.placed)) ∧
      (memory.scope.targets subject.document.placed).map Target.token =
        (subject.document.statementsOf .keywordCall).flatMap (·.tokensOf .assign) ∧
      ∀ x ∈ memory.scope.targets subject.document.placed,
        x.Agrees ↔ ¬ (x.breaks .possibleVariableOverwriting = true ∧
          (x.breaks .hyphenInVariableName = true ∨ x.breaks .duplicatedAssignedVarName = true)) := by
  refine ⟨o.scan_targets h memory subject, ?_, fun x _ => x.agrees_iff⟩
  rw [Check.Variable.Scope.map_token_targets]
  exact (subject.document.flatMap_calls id rfl).symm

end Options

def Subject.hyphenThenSimilar : Subject :=
  .withTest [.callTo 3 [("$\x7ba-b\x7d", 4)], .callTo 4 [("$\x7ba\x7d", 4), ("$\x7bA\x7d", 12)]]

namespace Options

theorem target_places_iff_hyphenThenSimilar :
    ∃ (s : Setup) (issues : List Issue), standard.setup .plain = ([], .ok s) ∧
      (s.linter.withMemory .blank).scan .variableNaming .hyphenThenSimilar = .ok issues ∧
      (Issue.among [.hyphenInVariableName] issues).map (fun i => (i.line, i.col)) = [(3, 5)] := by
  have hsetup := setup_standard .plain
  have hon := enables_standard hsetup .hyphenInVariableName
  obtain ⟨hgoes, hplaces⟩ := (target_places_iff standard hsetup .blank .hyphenThenSimilar).1
    (.variableNaming, .hyphenInVariableName) List.mem_cons_self hon
  obtain ⟨issues, hissues⟩ := hgoes (by decide)
  exact ⟨_, issues, hsetup, hissues, (hplaces issues hissues).trans (by decide)⟩

/-- The second target of a call is reported at two columns. -/
theorem target_reported_at_two_columns :
    ∃ (s : Setup) (repeats similar : List Issue), standard.setup .plain = ([], .ok s) ∧
      s.linter.scan .duplications .hyphenThenSimilar = .ok repeats ∧
      (Issue.among [.duplicatedAssignedVarName] repeats).map (fun i => (i.line, i.col)) = [(4, 13)] ∧
      s.linter.scan .similarVariables .hyphenThenSimilar = .ok similar ∧
      (Issue.among [.possibleVariableOverwriting] similar).map (fun i => (i.line, i.col)) =
        [(4, 12)] := by
  have hsetup := setup_standard .plain
  have hscan := scan_targets standard hsetup .blank .hyphenThenSimilar
  have hjudged : Subject.hyphenThenSimilar.document.IsJudged := by decide
  obtain ⟨hrepeats, hrepeated⟩ := hscan (.duplications, .duplicatedAssignedVarName) (by decide)
    (enables_standard hsetup .duplicatedAssignedVarName)
  obtain ⟨hsimilar, hfound⟩ := hscan (.similarVariables, .possibleVariableOverwriting) (by decide)
    (enables_standard hsetup .possibleVariableOverwriting)
  obtain ⟨repeats, hrepeats⟩ := hrepeats hjudged
  obtain ⟨similar, hsimilar⟩ := hsimilar hjudged
  exact ⟨_, repeats, similar, hsetup, hrepeats, (hrepeated repeats hrepeats).trans (by decide),
    hsimilar, (hfound similar hsimilar).trans (by decide)⟩

end Options

end SuiteLint
