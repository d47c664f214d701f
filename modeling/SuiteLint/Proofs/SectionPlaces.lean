import SuiteLint.Proofs.RepeatedTargets
import SuiteLint.Proofs.SeverityLetters

/-!
# The places of sections

A header is reported (0809) if an earlier one has a later place in `sections_order`, where headers of kinds
that are not listed do not count. Where the order names tasks and no test cases, headers of tasks are passed
over.
-/

namespace SuiteLint

/-! ## What a list of names says -/

namespace SectionOrder

def kindNamed? (name : String) : Option HeaderKind :=
  HeaderKind.ofName? (String.ofList (Text.lower name.toList))

def kindsNamed (value : String) : List (Option HeaderKind) :=
  ((Text.splitAt ',' value.toList).map String.ofList).map kindNamed?

def namedAt? (value : String) (kind : HeaderKind) : Option Nat := (kindsNamed value).idxOf? (some kind)

/-- The place that is due to headers of a kind. Tasks take the one of test cases if the list names these,
and else their own. -/
def duePlace? (value : String) : HeaderKind → Option Nat
  | .tasks => (namedAt? value .testCases).or (namedAt? value .tasks)
  | kind => namedAt? value kind

/-- The place that headers of a kind are given. Tasks take the one of test cases, and have none if the list
does not name these. -/
def takenPlace? (value : String) : HeaderKind → Option Nat
  | .tasks => namedAt? value .testCases
  | kind => namedAt? value kind

theorem position?_concat (order : SectionOrder) (kind other : HeaderKind) (index : Nat) :
    position? (order ++ [(kind, index)]) other =
      (order.position? other).or (if other = kind then some index else none) := by
  rw [position?, position?, List.lookup_append, List.lookup_cons, List.lookup_nil]
  by_cases hkind : other = kind
  · simp [hkind]
  · rw [beq_eq_false_iff_ne.mpr hkind, if_neg hkind]

theorem position?_readKinds {order order' : SectionOrder} {index : Nat} {names : List String}
    (h : readKinds order index names = some order') (kind : HeaderKind) :
    order'.position? kind = (order.position? kind).or
      (((names.map kindNamed?).idxOf? (some kind)).map (index + ·)) := by
  induction names generalizing order index with
  | nil =>
    rw [← Option.some.inj h]
    exact (Option.or_none).symm
  | cons name names ih =>
    rw [readKinds, ← kindNamed?] at h
    rw [List.map_cons, List.idxOf?_cons]
    cases hname : kindNamed? name with
    | none => simp [hname] at h
    | some read =>
      simp only [hname] at h
      split at h
      · cases h
      · next hnew =>
        rw [Option.not_isSome_iff_eq_none] at hnew
        rw [ih h, position?_concat]
        by_cases hkind : kind = read
        · simp [hkind, hnew]
        · have hsome : (some read == some kind) = false := by
            rw [beq_eq_false_iff_ne]
            exact fun heq => hkind (Option.some.inj heq).symm
          rw [if_neg hkind, hsome]
          simp [Function.comp_def, Nat.add_assoc, Nat.add_comm 1]

theorem exists_readKinds_iff (order : SectionOrder) (index : Nat) (names : List String) :
    (∃ order', readKinds order index names = some order') ↔
      none ∉ names.map kindNamed? ∧ (names.map kindNamed?).Nodup ∧
        ∀ kind, some kind ∈ names.map kindNamed? → order.position? kind = none := by
  induction names generalizing order index with
  | nil => simp [readKinds]
  | cons name names ih =>
    rw [readKinds, List.map_cons, List.nodup_cons, ← kindNamed?]
    cases kindNamed? name with
    | none => simp
    | some read =>
      simp only [List.mem_cons, reduceCtorEq, false_or, Option.some.injEq]
      split
      · next hold =>
        refine iff_of_false (by simp) fun hall => ?_
        rw [hall.2.2 read (Or.inl rfl)] at hold
        exact Bool.false_ne_true hold
      · next hnew =>
        rw [Option.not_isSome_iff_eq_none] at hnew
        rw [ih]
        simp only [position?_concat, Option.or_eq_none_iff]
        grind

private theorem position?_place (order : SectionOrder) (kind other : HeaderKind) (position : Nat) :
    (order.place kind position).position? other =
      if other = kind then some position else order.position? other := by
  rw [position?, place, position?, Lookup.lookup_put fun _ => position]
  cases order.lookup kind <;> rfl

theorem position?_withTasks (order : SectionOrder) (kind : HeaderKind) :
    order.withTasks.position? kind =
      if kind = .tasks then (order.position? .testCases).or (order.position? .tasks)
      else order.position? kind := by
  unfold withTasks
  split
  · next position htests =>
    rw [position?_place, htests]
    rfl
  · next hnone =>
    rw [hnone]
    split
    · next hkind => rw [hkind, Option.none_or]
    · rfl

theorem exists_parse_iff (value : String) :
    (∃ order, parse value = some order) ↔ none ∉ kindsNamed value ∧ (kindsNamed value).Nodup := by
  have hread := exists_readKinds_iff [] 0 ((Text.splitAt ',' value.toList).map String.ofList)
  rw [← kindsNamed] at hread
  simp only [parse, Option.map_eq_some_iff]
  constructor
  · rintro ⟨-, read, hkinds, -⟩
    obtain ⟨hknown, hnodup, -⟩ := hread.mp ⟨read, hkinds⟩
    exact ⟨hknown, hnodup⟩
  · rintro ⟨hknown, hnodup⟩
    obtain ⟨read, hkinds⟩ := hread.mpr ⟨hknown, hnodup, fun _ _ => rfl⟩
    exact ⟨_, read, hkinds, rfl⟩

theorem position?_parse {value : String} {order : SectionOrder} (h : parse value = some order)
    (kind : HeaderKind) : order.position? kind = duePlace? value kind := by
  obtain ⟨read, hread, rfl⟩ := Option.map_eq_some_iff.mp h
  have hplace (kind : HeaderKind) : read.position? kind = namedAt? value kind := by
    rw [position?_readKinds hread, namedAt?, kindsNamed]
    simp [position?]
  rw [position?_withTasks, hplace, hplace, hplace]
  cases kind <;> rfl

theorem duePlace?_of_takenPlace? {value : String} {kind : HeaderKind} {place : Nat}
    (h : takenPlace? value kind = some place) : duePlace? value kind = some place := by
  cases kind with
  | tasks => rw [duePlace?, show namedAt? value .testCases = some place from h, Option.some_or]
  | _ => exact h

theorem takenPlace?_eq {value : String} {kind : HeaderKind}
    (h : kind ≠ .tasks ∨ namedAt? value .testCases ≠ none ∨ namedAt? value .tasks = none) :
    takenPlace? value kind = duePlace? value kind := by
  cases kind with
  | tasks =>
    rw [duePlace?, takenPlace?]
    rcases h with h | h | h
    · exact absurd rfl h
    · obtain ⟨place, hplace⟩ := Option.ne_none_iff_exists'.mp h
      rw [hplace, Option.some_or]
    · rw [h, Option.or_none]
  | _ => rfl

end SectionOrder

/-! ## Headers out of place -/

namespace Check.SectionHeader

open SectionOrder

def headerKind? (st : Statement) : Option HeaderKind :=
  (st.mark?.bind kindOf).map fun kind => (countedKind kind st).1

def placeOf? (place? : HeaderKind → Option Nat) (st : Statement) : Option Nat :=
  (headerKind? st).bind place?

def isBehind (place? : HeaderKind → Option Nat) (before : List Statement) (st : Statement) : Bool :=
  (placeOf? place? st).any fun place =>
    before.any fun earlier => (placeOf? place? earlier).any (place < ·)

def outOfPlace (place? : HeaderKind → Option Nat) (headers : List Statement) : List Statement :=
  pickedAfter (isBehind place?) [] headers

def isForTasks (st : Statement) : Bool := headerKind? st = some .tasks

theorem isBehind_iff {place? : HeaderKind → Option Nat} {before : List Statement} {st : Statement} :
    isBehind place? before st = true ↔ ∃ place, placeOf? place? st = some place ∧
      ∃ earlier ∈ before, ∃ later, placeOf? place? earlier = some later ∧ place < later := by
  simp only [isBehind, Option.any_eq_true, List.any_eq_true, decide_eq_true_eq]

section

variable {value : String}

theorem isBehind_duePlace? {before : List Statement} {st : Statement}
    (h : isBehind (takenPlace? value) before st = true) : isBehind (duePlace? value) before st = true := by
  have hdue {other : Statement} {place : Nat} (hplace : placeOf? (takenPlace? value) other = some place) :
      placeOf? (duePlace? value) other = some place := by
    obtain ⟨kind, hkind, hplace⟩ := Option.bind_eq_some_iff.mp hplace
    exact Option.bind_eq_some_iff.mpr ⟨kind, hkind, duePlace?_of_takenPlace? hplace⟩
  rw [isBehind_iff] at h ⊢
  obtain ⟨place, hst, earlier, hmem, later, hearlier, hlt⟩ := h
  exact ⟨place, hdue hst, earlier, hmem, later, hdue hearlier, hlt⟩

theorem placeOf?_takenPlace? (h : namedAt? value .testCases = none) (st : Statement) :
    placeOf? (takenPlace? value) st = if isForTasks st then none else placeOf? (duePlace? value) st := by
  unfold placeOf? isForTasks
  cases headerKind? st with
  | none => simp
  | some kind =>
    by_cases hkind : kind = .tasks
    · simp [hkind, takenPlace?, h]
    · simp [hkind, takenPlace?_eq (Or.inl hkind)]

/-- Where a list names no test cases, headers of tasks neither are behind others nor put others behind. -/
theorem isBehind_takenPlace?_iff (h : namedAt? value .testCases = none) {before : List Statement}
    {st : Statement} :
    isBehind (takenPlace? value) before st = true ↔ isForTasks st = false ∧
      isBehind (duePlace? value) (before.filter (!isForTasks ·)) st = true := by
  simp only [isBehind_iff, placeOf?_takenPlace? h, List.mem_filter, Bool.not_eq_true']
  constructor
  · rintro ⟨place, hst, earlier, hmem, later, hearlier, hlt⟩
    rw [Option.ite_none_left_eq_some, Bool.not_eq_true] at hst hearlier
    exact ⟨hst.1, place, hst.2, earlier, ⟨hmem, hearlier.1⟩, later, hearlier.2, hlt⟩
  · rintro ⟨hother, place, hst, earlier, ⟨hmem, hbefore⟩, later, hearlier, hlt⟩
    refine ⟨place, ?_, earlier, hmem, later, ?_, hlt⟩
    · rw [hother, if_neg Bool.false_ne_true, hst]
    · rw [hbefore, if_neg Bool.false_ne_true, hearlier]

/-- The headers out of place are those that are due to be so exactly if the list names test cases or no
tasks, or each of the latter is behind another one without regard to headers of tasks. -/
theorem outOfPlace_eq_iff (headers : List Statement) :
    outOfPlace (takenPlace? value) headers = outOfPlace (duePlace? value) headers ↔
      namedAt? value .testCases ≠ none ∨ namedAt? value .tasks = none ∨
        ∀ before st after, headers = before ++ st :: after →
          isBehind (duePlace? value) before st = true → isForTasks st = false ∧
            isBehind (duePlace? value) (before.filter (!isForTasks ·)) st = true := by
  by_cases hsame : namedAt? value .testCases ≠ none ∨ namedAt? value .tasks = none
  · have hplaces : takenPlace? value = duePlace? value := funext fun kind => takenPlace?_eq (Or.inr hsame)
    rw [hplaces, ← or_assoc]
    exact iff_of_true rfl (Or.inl hsame)
  · have hnone : namedAt? value .testCases = none := by
      rw [not_or, not_not] at hsame
      exact hsame.1
    rw [← or_assoc, or_iff_right hsame, outOfPlace, outOfPlace,
      pickedAfter_eq_iff fun before st after _ => isBehind_duePlace?]
    simp only [List.nil_append, isBehind_takenPlace?_iff hnone]

private theorem outOfPlace_sublist (headers : List Statement) :
    (outOfPlace (takenPlace? value) headers).Sublist (outOfPlace (duePlace? value) headers) :=
  pickedAfter_sublist fun _ _ _ _ => isBehind_duePlace?

end

/-! ## What is found at headers -/

def headerText (st : Statement) : String := (st.dataTokens.head?.map (·.value)).getD ""

def placeFinding (order : SectionOrder) (st : Statement) : Finding :=
  found .sectionOutOfOrder [.string (headerText st), .string order.describe] (anchor st.line) 1

private theorem takenPlace?_countedKind (value : String) {kind : HeaderKind} (hkind : kind ≠ .tasks)
    (st : Statement) :
    takenPlace? value (countedKind kind st).1 = duePlace? value kind := by
  cases kind with
  | tasks => exact absurd rfl hkind
  | testCases => cases htasks : namesTasks st <;> simp [countedKind, htasks, takenPlace?, duePlace?]
  | _ => rfl

section

variable {value : String} {order : SectionOrder} (hparse : SectionOrder.parse value = some order)
include hparse

theorem placeOf?_of_mark {st : Statement} {mark : TokenKind} (hmark : st.mark? = some mark) :
    placeOf? (takenPlace? value) st =
      ((kindOf mark).filter fun kind => (order.position? kind).isSome).map fun kind =>
        (order.position? (countedKind kind st).1).getD 0 := by
  simp only [placeOf?, headerKind?, hmark, Option.bind_some, position?_parse hparse]
  cases hkind : kindOf mark with
  | none => rfl
  | some kind =>
    have htasks : kind ≠ .tasks := by
      rintro rfl
      cases mark <;> cases hkind
    have htaken := takenPlace?_countedKind value htasks st
    rw [Option.map_some, Option.bind_some, Option.filter_some, htaken]
    cases hplace : duePlace? value kind with
    | none => rfl
    | some place =>
      rw [Option.isSome_some, if_pos rfl, Option.map_some,
        duePlace?_of_takenPlace? (htaken.trans hplace), Option.getD_some]

omit hparse in
theorem among_judge_order (seen : Seen) (kind : HeaderKind) (st : Statement) :
    RuleKey.sectionOutOfOrder.among (judge order seen kind st).1 =
      if seen.positions.any ((order.position? (countedKind kind st).1).getD 0 < ·) then
        [placeFinding order st]
      else [] := by
  have hother {rule : RuleKey} (hrule : rule ≠ .sectionOutOfOrder) (p : Prop) [Decidable p]
      (args : List Datum) (line : Int) :
      RuleKey.sectionOutOfOrder.among (if p then [found rule args line 1] else []) = [] :=
    RuleKey.among_eq_nil fun f hf heq => hrule ((rule_of_mem_ite hf).symm.trans heq)
  have hclash := hother (show RuleKey.bothTestsAndTasks ≠ _ by decide)
  have hagain := hother (show RuleKey.sectionAlreadyDefined ≠ _ by decide)
  simp only [judge, RuleKey.among_append, hclash, hagain, List.nil_append]
  split
  · rfl
  · rfl

theorem among_checkFrom_order {seen : Seen} {before ss : List Statement} {findings : List Finding}
    (hseen : seen.positions = before.filterMap (placeOf? (takenPlace? value)))
    (h : checkFrom order seen ss = .ok findings) :
    RuleKey.sectionOutOfOrder.among findings =
      (pickedAfter (isBehind (takenPlace? value)) before ss).map (placeFinding order) := by
  induction ss generalizing seen before findings with
  | nil =>
    rw [← Except.ok.inj h]
    rfl
  | cons st ss ih =>
    rw [checkFrom] at h
    cases hmark : st.mark? with
    | none => simp [hmark] at h
    | some mark =>
      have hplace := placeOf?_of_mark hparse hmark
      simp only [hmark] at h
      rw [pickedAfter]
      cases hkind : (kindOf mark).filter fun kind => (order.position? kind).isSome with
      | none =>
        -- A header without a place is passed over, and remembered nowhere.
        rw [hkind, Option.map_none] at hplace
        have hbehind : isBehind (takenPlace? value) before st = false := by rw [isBehind, hplace]; rfl
        simp only [hkind] at h
        rw [hbehind, if_neg Bool.false_ne_true, List.nil_append]
        refine ih ?_ h
        rw [List.filterMap_append, List.filterMap_cons, hplace, hseen]
        exact (List.append_nil _).symm
      | some kind =>
        rw [hkind, Option.map_some] at hplace
        have hbehind : isBehind (takenPlace? value) before st =
            seen.positions.any ((order.position? (countedKind kind st).1).getD 0 < ·) := by
          rw [isBehind, hplace, hseen, List.any_filterMap]
          rfl
        simp only [hkind] at h
        obtain ⟨more, hmore, h⟩ := exists_of_bind_eq_ok h
        have hnext : (judge order seen kind st).2.positions =
            (before ++ [st]).filterMap (placeOf? (takenPlace? value)) := by
          rw [List.filterMap_append, List.filterMap_cons, hplace, ← hseen]
          rfl
        rw [← Except.ok.inj h, RuleKey.among_append, among_judge_order, ih hnext hmore, List.map_append,
          hbehind]
        split
        · rfl
        · rfl

end

theorem exists_checkFrom_iff (order : SectionOrder) (seen : Seen) (ss : List Statement) :
    (∃ findings, checkFrom order seen ss = .ok findings) ↔ ∀ st ∈ ss, st.mark? ≠ none := by
  induction ss generalizing seen with
  | nil => simp [checkFrom]
  | cons st ss ih =>
    rw [checkFrom, List.forall_mem_cons]
    cases st.mark? with
    | none => simp
    | some mark =>
      simp only [ne_eq, reduceCtorEq, not_false_eq_true, true_and]
      cases (kindOf mark).filter fun kind => (order.position? kind).isSome with
      | none => exact ih seen
      | some kind =>
        rw [← ih (judge order seen kind st).2]
        constructor
        · rintro ⟨findings, hfindings⟩
          obtain ⟨more, hmore, -⟩ := exists_of_bind_eq_ok hfindings
          exact ⟨more, hmore⟩
        · rintro ⟨more, hmore⟩
          exact ⟨_, by simp only [hmore]; rfl⟩

def OnHeader (f : Finding) : Prop :=
  f.rule = .bothTestsAndTasks ∧ f.args = [] ∨ f.rule = .sectionAlreadyDefined ∧ (∃ a, f.args = [a]) ∨
    f.rule = .sectionOutOfOrder ∧ ∃ a b, f.args = [a, b]

theorem onHeader_judge (order : SectionOrder) (seen : Seen) (kind : HeaderKind) (st : Statement) :
    ∀ f ∈ (judge order seen kind st).1, OnHeader f := by
  have hone {g : Finding} (hg : OnHeader g) (p : Prop) [Decidable p] :
      ∀ f ∈ (if p then [g] else []), OnHeader f := by
    split
    · exact List.forall_mem_singleton.mpr hg
    · exact List.forall_mem_nil _
  simp only [judge, List.forall_mem_append]
  exact ⟨⟨hone (Or.inl ⟨rfl, rfl⟩) _, hone (Or.inr (Or.inl ⟨rfl, _, rfl⟩)) _⟩,
    hone (Or.inr (Or.inr ⟨rfl, _, _, rfl⟩)) _⟩

theorem onHeader_checkFrom {order : SectionOrder} {seen : Seen} {ss : List Statement}
    {findings : List Finding} (h : checkFrom order seen ss = .ok findings) :
    ∀ f ∈ findings, OnHeader f := by
  induction ss generalizing seen findings with
  | nil =>
    rw [← Except.ok.inj h]
    exact List.forall_mem_nil _
  | cons st ss ih =>
    rw [checkFrom] at h
    split at h
    · cases h
    · split at h
      · exact ih h
      · obtain ⟨more, hmore, h⟩ := exists_of_bind_eq_ok h
        rw [← Except.ok.inj h, List.forall_mem_append]
        exact ⟨onHeader_judge order seen _ st, ih hmore⟩

def placeEntry (order : SectionOrder) (st : Statement) : String × String × Int × Int :=
  ("0809", "'" ++ headerText st ++ "' section header is defined in wrong order: " ++ order.describe,
    anchor st.line, 1)

private theorem OnHeader.fills {f : Finding} (h : OnHeader f) :
    f.rule ∈ Checker.sectionHeaders.keys ∧ f.Fills := by
  rcases h with ⟨hrule, hargs⟩ | ⟨hrule, a, hargs⟩ | ⟨hrule, a, b, hargs⟩
  · exact ⟨by rw [hrule]; decide, Finding.fills_of_template hrule hargs rfl rfl .nil⟩
  · exact ⟨by rw [hrule]; decide, Finding.fills_of_template hrule hargs rfl rfl (.cons trivial .nil)⟩
  · exact ⟨by rw [hrule]; decide,
      Finding.fills_of_template hrule hargs rfl rfl (.cons trivial (.cons trivial .nil))⟩

theorem entry_placeFinding (order : SectionOrder) (st : Statement) :
    (placeFinding order st).entry = placeEntry order st := by
  have hwording : Text.Wording _ [.string (headerText st), .string order.describe]
      ("'" ++ (headerText st ++ ("' section header is defined in wrong order: " ++ (order.describe ++ "")))) :=
    .plain rfl rfl (.text (.plain rfl rfl (.text (.last rfl rfl))))
  rw [Finding.entry, Finding.message_of_wording hwording rfl rfl, placeEntry]
  simp only [String.append_assoc, String.append_empty]
  rfl

end Check.SectionHeader

/-! ## A setting at the end -/

theorem Tuning.configureAll_concat {t t' : Tuning} {host : Host} {reports more : Reports}
    {settings : List String} (h : t.configureAll host reports settings = .ok (t', more))
    (setting : String) :
    t.configureAll host reports (settings ++ [setting]) = t'.configure host more setting := by
  induction settings generalizing t reports with
  | nil =>
    obtain ⟨rfl, rfl⟩ := Prod.mk.inj (Except.ok.inj h)
    rw [List.nil_append, configureAll]
    cases t.configure host reports setting <;> rfl
  | cons first settings ih =>
    rw [configureAll] at h
    rw [List.cons_append, configureAll]
    cases hfirst : t.configure host reports first with
    | error e => simp [hfirst] at h
    | ok p =>
      simp only [hfirst] at h
      exact ih h

theorem Registry.splitSetting_writtenSetting {target param : String} (ht : ':' ∉ target.toList)
    (hp : ':' ∉ param.toList) (value : String) :
    splitSetting (Options.writtenSetting target param value) = some (target, param, value) := by
  have hfirst : Text.cutAt ':' (Options.writtenSetting target param value).toList =
      (target.toList, some (param.toList ++ ':' :: value.toList)) :=
    Text.cutAt_eq_some_iff.mpr ⟨Options.toList_writtenSetting target param value, ht⟩
  have hsecond : Text.cutAt ':' (param.toList ++ ':' :: value.toList) =
      (param.toList, some value.toList) := Text.cutAt_eq_some_iff.mpr ⟨rfl, hp⟩
  simp only [splitSetting, hfirst, hsecond, String.ofList_toList]

def Options.adding (o : Options) (setting : String) : Options :=
  { o with settings := o.settings ++ [setting] }

section

variable (o : Options) {host : Host} {notes : List String} {s : Setup}
  (h : o.setup host = (notes, .ok s)) {c : Checker} {key : RuleKey} (hkey : key ∈ c.keys)
  {target param setting value : String} (hcalled : key.IsCalled target) (hparam : param ≠ "severity")
  (hsplit : Registry.splitSetting setting = some (target, param, value)) {p : Param}
  (hp : key.rule.param? param = some p)
include h hkey hcalled hparam hsplit hp

/-- Accepted options are accepted with one more setting of a parameter that takes the value. Then the
parameter has the value, and the same rules are on. -/
theorem Options.setup_adding {v : ParamValue} (hread : p.kind.read value = .ok v) :
    ∃ s' : Setup, (o.adding setting).setup host = (notes, .ok s') ∧
      s'.linter.valuesFor key = (s.linter.valuesFor key).set p.slot v ∧
      ∀ other : RuleKey, s'.linter.registry.enables other.id = s.linter.registry.enables other.id := by
  obtain ⟨hvalid, t, hall, hlinter⟩ := setup_ok_iff.mp h
  have howner := Checker.owner?_eq_some_iff.mpr ⟨c.mem_all, hkey, hcalled⟩
  have hlast : t.configure host s.reports setting = .ok (t.assign c p.slot v, s.reports) := by
    simp only [Tuning.configure, hsplit, howner, Tuning.tune, if_neg hparam, hp, hread]
    rfl
  refine ⟨⟨⟨host, .tuned host o.selection.picks (t.assign c p.slot v), .blank⟩, s.reports⟩,
    setup_ok_iff.mpr ⟨hvalid, _, (Tuning.configureAll_concat hall _).trans hlast, rfl⟩,
    ?_, ?_⟩
  · rw [hlinter, Linter.valuesFor_tuned host _ _ _ hkey, Linter.valuesFor_tuned host _ t _ hkey,
      Tuning.assign]
    exact if_pos rfl
  · intro other
    rw [hlinter, Registry.enables_tuned, Registry.enables_tuned]

theorem Options.read_of_setup_adding {notes' : List String} {s' : Setup}
    (hs' : (o.adding setting).setup host = (notes', .ok s')) : ∃ v, p.kind.read value = .ok v := by
  obtain ⟨-, t, hall, -⟩ := setup_ok_iff.mp h
  obtain ⟨-, t', hmore, -⟩ := setup_ok_iff.mp hs'
  have howner := Checker.owner?_eq_some_iff.mpr ⟨c.mem_all, hkey, hcalled⟩
  rw [adding, Tuning.configureAll_concat hall] at hmore
  cases hread : p.kind.read value with
  | ok v => exact ⟨v, rfl⟩
  | error e =>
    simp only [Tuning.configure, hsplit, howner, Tuning.tune, if_neg hparam, hp, hread] at hmore
    cases hmore

end

/-! ## What is reported -/

def Document.headers (d : Document) : List Statement := d.statementsOf .sectionHeader

def Options.orderSetting (value : String) : String := writtenSetting "0809" "sections_order" value

namespace Options

open SectionOrder Check.SectionHeader

/-- Accepted options are accepted with the setting of an order exactly if its list can be read. The same
rules are then on, and the order is the one of the list. -/
theorem setup_orderSetting (o : Options) {host : Host} {notes : List String} {s : Setup}
    (h : o.setup host = (notes, .ok s)) (value : String) :
    ((∃ s', (o.adding (orderSetting value)).setup host = (notes, .ok s')) ↔
        ∃ order, SectionOrder.parse value = some order) ∧
      ∀ s', (o.adding (orderSetting value)).setup host = (notes, .ok s') →
        SectionOrder.parse value = some s'.linter.sectionOrder ∧
          ∀ other : RuleKey,
            s'.linter.registry.enables other.id = s.linter.registry.enables other.id := by
  have hkey : RuleKey.sectionOutOfOrder ∈ Checker.sectionHeaders.keys := by decide
  have hcalled : RuleKey.sectionOutOfOrder.IsCalled "0809" := Or.inr rfl
  have hparam : "sections_order" ≠ "severity" := by decide
  have hsplit : Registry.splitSetting (orderSetting value) = some ("0809", "sections_order", value) :=
    Registry.splitSetting_writtenSetting (by decide) (by decide) value
  cases hvalue : SectionOrder.parse value with
  | none =>
    have hread : ParamKind.order.read value = .error (.badOrder value) := by rw [ParamKind.read, hvalue]
    have hnot (s' : Setup) (hs' : (o.adding (orderSetting value)).setup host = (notes, .ok s')) :
        False := by
      obtain ⟨v, hv⟩ := o.read_of_setup_adding h hkey hcalled hparam hsplit rfl hs'
      cases hread.symm.trans hv
    exact ⟨⟨fun ⟨s', hs'⟩ => (hnot s' hs').elim, by simp⟩, fun s' hs' => (hnot s' hs').elim⟩
  | some order =>
    have hread : ParamKind.order.read value = .ok (.order order) := by rw [ParamKind.read, hvalue]
    obtain ⟨s', hs', hvalues, hon⟩ :=
      o.setup_adding h hkey hcalled hparam hsplit rfl hread
    refine ⟨⟨fun _ => ⟨order, rfl⟩, fun _ => ⟨s', hs'⟩⟩, fun s'' hs'' => ?_⟩
    obtain rfl : s'' = s' := Except.ok.inj (Prod.mk.inj (hs''.symm.trans hs')).2
    refine ⟨?_, hon⟩
    rw [Linter.sectionOrder, hvalues, Values.order, Values.get_set, if_pos rfl]

/-- The check of headers goes through exactly if all of them have their tokens. It then reports the headers
out of place by the places that are taken. -/
theorem scan_sectionHeaders (o : Options) {host : Host} {notes : List String} {s : Setup}
    (h : o.setup host = (notes, .ok s)) {value : String}
    (hvalue : SectionOrder.parse value = some s.linter.sectionOrder)
    (hon : s.linter.registry.enables "0809" = true) (memory : Memory) (subject : Subject) :
    ((∃ issues, (s.linter.withMemory memory).scan .sectionHeaders subject = .ok issues) ↔
        ∀ st ∈ subject.document.headers, st.mark? ≠ none) ∧
      ∀ issues, (s.linter.withMemory memory).scan .sectionHeaders subject = .ok issues →
        (Issue.among [.sectionOutOfOrder] issues).map Issue.entry =
          (outOfPlace (takenPlace? value) subject.document.headers).map
            (placeEntry s.linter.sectionOrder) := by
  have hkey : RuleKey.sectionOutOfOrder ∈ Checker.sectionHeaders.keys := by decide
  obtain ⟨hgoes, hentries⟩ := o.scan_iff h memory hkey hon rfl fun findings hrun f hf =>
    (onHeader_checkFrom hrun f hf).fills
  refine ⟨hgoes.trans (exists_checkFrom_iff _ _ _), fun issues hissues => ?_⟩
  obtain ⟨findings, hrun, hreported⟩ := hentries issues hissues
  rw [hreported, among_checkFrom_order hvalue List.filterMap_nil.symm hrun, List.map_map]
  exact List.map_congr_left fun st _ => entry_placeFinding _ st

/-- A `sections_order` is accepted exactly if its list has only names of kinds and none of them twice. The
headers out of place (0809) are then reported, each once and in order. They are the headers with one of a
later place before them, exactly if the list names test cases or no tasks, or if each of these is none of
tasks and stays behind another one when the headers of tasks are left out. -/
theorem sections_in_place_iff (o : Options) {host : Host} {notes : List String} {s : Setup}
    (h : o.setup host = (notes, .ok s)) (hon : s.linter.registry.enables "0809" = true)
    (value : String) (memory : Memory) (subject : Subject) :
    ((∃ s', (o.adding (orderSetting value)).setup host = (notes, .ok s')) ↔
        none ∉ kindsNamed value ∧ (kindsNamed value).Nodup) ∧
      ∀ s', (o.adding (orderSetting value)).setup host = (notes, .ok s') →
        ((∃ issues, (s'.linter.withMemory memory).scan .sectionHeaders subject = .ok issues) ↔
          ∀ st ∈ subject.document.headers, st.mark? ≠ none) ∧
        ∀ issues, (s'.linter.withMemory memory).scan .sectionHeaders subject = .ok issues →
          (Issue.among [.sectionOutOfOrder] issues).map Issue.entry =
            (outOfPlace (takenPlace? value) subject.document.headers).map
              (placeEntry s'.linter.sectionOrder) ∧
          ((Issue.among [.sectionOutOfOrder] issues).map Issue.entry =
              (outOfPlace (duePlace? value) subject.document.headers).map
                (placeEntry s'.linter.sectionOrder) ↔
            namedAt? value .testCases ≠ none ∨ namedAt? value .tasks = none ∨
              ∀ before st after, subject.document.headers = before ++ st :: after →
                isBehind (duePlace? value) before st = true → isForTasks st = false ∧
                  isBehind (duePlace? value) (before.filter (!isForTasks ·)) st = true) := by
  obtain ⟨haccepted, horder⟩ := o.setup_orderSetting h value
  refine ⟨haccepted.trans (exists_parse_iff value), fun s' hs' => ?_⟩
  obtain ⟨hvalue, henables⟩ := horder s' hs'
  have hon' : s'.linter.registry.enables "0809" = true := (henables .sectionOutOfOrder).trans hon
  obtain ⟨hgoes, hreported⟩ := scan_sectionHeaders _ hs' hvalue hon' memory subject
  refine ⟨hgoes, fun issues hissues => ⟨hreported issues hissues, ?_⟩⟩
  rw [hreported issues hissues, ← outOfPlace_eq_iff]
  exact map_eq_iff_of_sublist (outOfPlace_sublist _) _

end Options

def Section.onlyHeader (kind : SectionKind) (mark : TokenKind) (title : String) (line : Int) : Section where
  kind := kind
  header := some ⟨.sectionHeader, [⟨mark, "*** " ++ title ++ " ***", line, 0⟩], []⟩
  body := []

def Subject.ofSections (sections : List Section) : Subject := ⟨"a.robot", .text [], ⟨none, sections⟩⟩

def Subject.settingsFirst : Subject :=
  .ofSections [.onlyHeader .settings .settingHeader "Settings" 1,
    .onlyHeader .testCases .testCaseHeader "Tasks" 2, .onlyHeader .keywords .keywordHeader "Keywords" 3,
    .onlyHeader .variableRows .variableHeader "Variables" 4,
    .onlyHeader .testCases .testCaseHeader "Test Cases" 5]

def Subject.tasksLast : Subject :=
  .ofSections [.onlyHeader .keywords .keywordHeader "Keywords" 1,
    .onlyHeader .testCases .testCaseHeader "Tasks" 2]

namespace Options

open SectionOrder Check.SectionHeader

theorem sections_in_place_iff_settingsFirst :
    ∃ (s s' : Setup) (issues : List Issue), standard.setup .plain = ([], .ok s) ∧
      s.linter.registry.enables "0809" = true ∧
      (standard.adding (orderSetting "Task,keywords,testcase,Settings")).setup .plain = ([], .ok s') ∧
      (s'.linter.withMemory .blank).scan .sectionHeaders .settingsFirst = .ok issues ∧
      ((Issue.among [.sectionOutOfOrder] issues).map Issue.entry).map (·.2.2) =
        [(2, 1), (3, 1), (5, 1)] := by
  have hsetup := setup_standard .plain
  have hon := enables_standard hsetup .sectionOutOfOrder
  obtain ⟨haccepted, hreports⟩ := sections_in_place_iff standard hsetup hon
    "Task,keywords,testcase,Settings" .blank .settingsFirst
  obtain ⟨s', hs'⟩ := haccepted.mpr (by decide +kernel)
  obtain ⟨hgoes, hentries⟩ := hreports s' hs'
  obtain ⟨issues, hissues⟩ := hgoes.mpr (by decide +kernel)
  refine ⟨_, s', issues, hsetup, hon, hs', hissues, ?_⟩
  rw [(hentries issues hissues).1, List.map_map]
  show (outOfPlace (takenPlace? "Task,keywords,testcase,Settings")
    Subject.settingsFirst.document.headers).map (fun st => (anchor st.line, (1 : Int))) = _
  decide +kernel

/-- Tasks behind keywords are out of place in a list that names tasks first. They are not reported if it
names no test cases. -/
theorem tasks_behind_keywords_passed_over :
    ∃ (s' : Setup) (issues : List Issue),
      (standard.adding (orderSetting "settings,tasks,keywords")).setup .plain = ([], .ok s') ∧
      (outOfPlace (duePlace? "settings,tasks,keywords") Subject.tasksLast.document.headers).map
        (placeEntry s'.linter.sectionOrder) =
          [("0809", "'*** Tasks ***' section header is defined in wrong order: " ++
            "Settings > Test Cases / Tasks > Keywords", 2, 1)] ∧
      (s'.linter.withMemory .blank).scan .sectionHeaders .tasksLast = .ok issues ∧
      Issue.among [.sectionOutOfOrder] issues = [] := by
  have hsetup := setup_standard .plain
  obtain ⟨haccepted, horder⟩ := standard.setup_orderSetting hsetup "settings,tasks,keywords"
  obtain ⟨s', hs'⟩ := haccepted.mpr ⟨_, rfl⟩
  obtain ⟨hvalue, henables⟩ := horder s' hs'
  have hon := (henables .sectionOutOfOrder).trans (enables_standard hsetup .sectionOutOfOrder)
  obtain ⟨hgoes, hreported⟩ := scan_sectionHeaders _ hs' hvalue hon .blank .tasksLast
  obtain ⟨issues, hissues⟩ := hgoes.mpr (by decide +kernel)
  refine ⟨s', issues, hs', ?_, hissues, ?_⟩
  · rw [← Option.some.inj hvalue]
    decide +kernel
  · have hnone : outOfPlace (takenPlace? "settings,tasks,keywords")
        Subject.tasksLast.document.headers = [] := by decide +kernel
    have hentries := hreported issues hissues
    rw [hnone] at hentries
    exact List.map_eq_nil_iff.mp hentries

end Options

end SuiteLint
