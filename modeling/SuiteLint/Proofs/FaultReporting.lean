import SuiteLint.Proofs.SelectionFilter
import SuiteLint.Proofs.TextParts

/-!
# Which faults of the reader are reported

Two checkers share the faults that the reader of a file found: one sorts them by their texts (0401, 0405, 0407
to 0413), the other looks at settings and variables that do not start in the first column (1014, 1016). A
fault is lost exactly if the first passes over it and the second does not take it over.
-/

namespace SuiteLint

namespace Fault

/-- What a fault is about. -/
inductive Topic where
  | argument | setting | variableName | condition | loop | other
  deriving DecidableEq

/-- The topic of a fault is decided by the first of these phrases that its text holds. -/
def topic (error : String) : Topic :=
  if mentions error "Invalid argument syntax" then .argument
  else if mentions error "Non-existing setting" then .setting
  else if mentions error "Invalid variable name" then .variableName
  else if mentions error "IF has" then .condition
  else if mentions error "FOR loop has" then .loop
  else .other

def StartsWithDots (name : List Char) : Prop := "..".toList.isPrefixOf (Text.trimLeft name) = true

def IsBareMark (name : List Char) : Prop :=
  ∃ a b c, Text.trimLeft name = [a, b, c] ∧ Text.isBlank c = false

theorem infix_of_namedAfter? {intro s name : List Char} (h : namedAfter? intro s = some name) :
    intro <:+: s := by
  induction s with
  | nil => simp [namedAfter?] at h
  | cons c rest ih =>
    rw [namedAfter?] at h
    split at h
    · next tail htail =>
      rw [Text.after?_eq_some_iff.mp htail]
      exact (List.prefix_append intro tail).isInfix
    · exact (ih h).trans (List.suffix_cons c rest).isInfix

theorem mentions_of_unknownSetting? {error : String} {name : List Char}
    (h : unknownSetting? error = some name) : mentions error "Non-existing setting" = true := by
  rw [mentions, Text.has_iff]
  refine List.IsInfix.trans ?_ (infix_of_namedAfter? h)
  exact ⟨[], [' ', '\''], rfl⟩

end Fault

namespace Check

open Fault

/-! ## What the check for faults passes over -/

namespace ParsingError

theorem handle_eq (n : Node) {error : String} (h : error.isEmpty = false) :
    handle n error =
      match topic error with
      | .argument => argument n error
      | .setting => setting n error
      | .variableName => variableName n error
      | .condition => inBlock .invalidIf n error
      | .loop => inBlock .invalidForLoop n error
      | .other => .ok (plain .parsingError [unbroken error] n) := by
  unfold handle topic
  rw [h]
  cases mentions error "Invalid argument syntax" with
  | true => rfl
  | false =>
    cases mentions error "Non-existing setting" with
    | true => rfl
    | false =>
      cases mentions error "Invalid variable name" with
      | true => rfl
      | false =>
        cases mentions error "IF has" with
        | true => rfl
        | false => cases mentions error "FOR loop has" <;> rfl

/-- The nodes whose faults are looked at: statements other than calls, and FOR and IF blocks. -/
def isRead : Node → Bool
  | .leaf s => s.kind ≠ .keywordCall
  | .block kind .. => kind = .for_ || kind = .if_

/-- The ways in which a fault is passed over. -/
inductive Dropped (n : Node) (error : String) : Prop
  /-- The faults of the node are not looked at. -/
  | unread (h : isRead n = false)
  /-- The text quotes no argument. -/
  | unquoted (ht : topic error = .argument) (h : quotedPart? error.toList = none)
  /-- The text names no setting, or one without characters. -/
  | unnamedSetting (ht : topic error = .setting)
      (h : unknownSetting? error = none ∨ unknownSetting? error = some [])
  /-- The setting is a continuation mark, and the statement starts with three characters. -/
  | settingMark {name : List Char} {s : Statement} {t : Token} {ts : List Token}
      (ht : topic error = .setting) (h : unknownSetting? error = some name)
      (hdots : StartsWithDots name) (hs : n = .leaf s) (hfirst : s.dataTokens = t :: ts)
      (hmark : IsBareMark t.value.toList)
  /-- The setting is one of suites with blanks before it. -/
  | shiftedSetting {c : Char} {rest : List Char} (ht : topic error = .setting)
      (h : unknownSetting? error = some (c :: rest)) (hdots : ¬ StartsWithDots (c :: rest))
      (hblank : Text.isBlank c = true) (hsuite : (suiteSettingAt? (c :: rest)).isSome = true)
  /-- The text names no variable, or one without characters. -/
  | unnamedVariable (ht : topic error = .variableName)
      (h : invalidVariable? error = none ∨ invalidVariable? error = some [])
  /-- The variable is a continuation mark. -/
  | variableMark {name : List Char} (ht : topic error = .variableName)
      (h : invalidVariable? error = some name) (hdots : StartsWithDots name)
      (hmark : IsBareMark name)
  /-- There are blanks before the variable. -/
  | shiftedVariable {c : Char} {rest : List Char} (ht : topic error = .variableName)
      (h : invalidVariable? error = some (c :: rest)) (hdots : ¬ StartsWithDots (c :: rest))
      (hblank : Text.isBlank c = true)

@[simp] theorem plain_ne_nil (rule : RuleKey) (args : List String) (n : Node) : plain rule args n ≠ [] := by
  simp [plain]

private theorem inBlock_ne_nil (rule : RuleKey) (n : Node) (error : String) :
    inBlock rule n error ≠ .ok [] := by
  unfold inBlock
  dsimp only
  split <;> simp

theorem argument_eq_nil_iff (n : Node) (error : String) :
    argument n error = .ok [] ↔ quotedPart? error.toList = none := by
  unfold argument
  split
  · next h => simp [h]
  · next name h =>
    simp only [h, reduceCtorEq, iff_false]
    split
    · simp
    · split <;> simp [plain_ne_nil]

theorem continuationMark_eq_nil_iff (n : Node) (name : List Char) :
    continuationMark n name = .ok [] ↔ IsBareMark name := by
  unfold continuationMark IsBareMark
  dsimp only
  split
  · next a b h => simp [h]
  · next a b c rest h =>
    rw [h]
    cases hblank : Text.isBlank c with
    | true =>
      simp only [if_true, Except.ok.injEq, reduceCtorEq, false_iff]
      rintro ⟨a', b', c', heq, hc⟩
      simp_all
    | false =>
      cases rest with
      | nil =>
        simp only [Bool.false_eq_true, if_false, List.isEmpty_nil, if_true, true_iff]
        exact ⟨a, b, c, rfl, hblank⟩
      | cons d rest =>
        simp only [Bool.false_eq_true, if_false, List.isEmpty_cons]
        constructor
        · intro h'
          split at h' <;> simp at h'
        · rintro ⟨a', b', c', heq, -⟩
          simp at heq
  · next h1 h2 =>
    simp only [reduceCtorEq, false_iff]
    rintro ⟨a, b, c, heq, -⟩
    exact h2 a b c [] heq

/-- A setting that starts with dots: the mark is judged by the first word of the statement. -/
theorem setting_of_dots (n : Node) {error : String} {name : List Char}
    (h : unknownSetting? error = some name) (hdots : StartsWithDots name) :
    setting n error = .ok [] ↔
      ∃ s t ts, n = .leaf s ∧ s.dataTokens = t :: ts ∧ IsBareMark t.value.toList := by
  cases name with
  | nil => simp [StartsWithDots, Text.trimLeft] at hdots
  | cons c rest =>
    unfold StartsWithDots at hdots
    unfold setting
    simp only [h, hdots, if_true]
    cases n with
    | block kind header body orelse close errors => simp
    | leaf s =>
      simp only [Node.leaf.injEq]
      unfold firstData
      cases hs : s.dataTokens with
      | nil =>
        simp only [bind, Except.bind, reduceCtorEq, false_iff]
        rintro ⟨_, t, ts, rfl, hts, -⟩
        simp [hs] at hts
      | cons t ts =>
        change continuationMark (.leaf s) t.value.toList = .ok [] ↔ _
        rw [continuationMark_eq_nil_iff]
        constructor
        · exact fun hmark => ⟨s, t, ts, rfl, hs, hmark⟩
        · rintro ⟨_, t', ts', rfl, hts, hmark⟩
          rw [hs, List.cons.injEq] at hts
          exact hts.1 ▸ hmark

/-- Any other setting is reported, unless it is one of suites with blanks before it. -/
theorem setting_of_plain (n : Node) {error : String} {c : Char} {rest : List Char}
    (h : unknownSetting? error = some (c :: rest)) (hdots : ¬ StartsWithDots (c :: rest)) :
    setting n error = .ok [] ↔
      Text.isBlank c = true ∧ (suiteSettingAt? (c :: rest)).isSome = true := by
  unfold StartsWithDots at hdots
  unfold setting
  simp only [h, if_neg hdots]
  have hblank {word word' : String}
      (hname : (decide (String.ofList (c :: rest) = word) || decide (String.ofList (c :: rest) = word')) = true)
      (hword : word.toList.head?.all (!Text.isBlank ·) = true)
      (hword' : word'.toList.head?.all (!Text.isBlank ·) = true) : Text.isBlank c = false := by
    rcases Bool.or_eq_true _ _ ▸ hname with h | h
    · simpa [← of_decide_eq_true h] using hword
    · simpa [← of_decide_eq_true h] using hword'
  split
  · next hname => simp [plain_ne_nil, hblank hname rfl rfl]
  · split
    · next hname => simp [plain_ne_nil, hblank hname rfl rfl]
    · split
      · next title htitle => cases Text.isBlank c <;> simp [htitle, plain_ne_nil]
      · next hnone => simp [hnone, plain_ne_nil]

theorem setting_eq_nil_iff {n : Node} {error : String} (hread : isRead n = true)
    (ht : topic error = .setting) : setting n error = .ok [] ↔ Dropped n error := by
  constructor
  · intro hnil
    cases h : unknownSetting? error with
    | none => exact .unnamedSetting ht (Or.inl h)
    | some name =>
      by_cases hdots : StartsWithDots name
      · obtain ⟨s, t, ts, hs, hfirst, hmark⟩ := (setting_of_dots n h hdots).mp hnil
        exact .settingMark ht h hdots hs hfirst hmark
      · cases name with
        | nil => exact .unnamedSetting ht (Or.inr h)
        | cons c rest =>
          obtain ⟨hblank, hsuite⟩ := (setting_of_plain n h hdots).mp hnil
          exact .shiftedSetting ht h hdots hblank hsuite
  · intro hdropped
    cases hdropped with
    | unnamedSetting _ h => rcases h with h | h <;> simp [setting, h]
    | settingMark _ h hdots hs hfirst hmark =>
      exact (setting_of_dots n h hdots).mpr ⟨_, _, _, hs, hfirst, hmark⟩
    | shiftedSetting _ h hdots hblank hsuite =>
      exact (setting_of_plain n h hdots).mpr ⟨hblank, hsuite⟩
    | unread h => simp [hread] at h
    | unquoted ht' => simp [ht] at ht'
    | unnamedVariable ht' => simp [ht] at ht'
    | variableMark ht' => simp [ht] at ht'
    | shiftedVariable ht' => simp [ht] at ht'

theorem variableName_of_dots (n : Node) {error : String} {name : List Char}
    (h : invalidVariable? error = some name) (hdots : StartsWithDots name) :
    variableName n error = .ok [] ↔ IsBareMark name := by
  cases name with
  | nil => simp [StartsWithDots, Text.trimLeft] at hdots
  | cons c rest =>
    unfold StartsWithDots at hdots
    unfold variableName
    simp only [h, hdots, if_true, continuationMark_eq_nil_iff]

theorem variableName_of_plain (n : Node) {error : String} {c : Char} {rest : List Char}
    (h : invalidVariable? error = some (c :: rest)) (hdots : ¬ StartsWithDots (c :: rest)) :
    variableName n error = .ok [] ↔ Text.isBlank c = true := by
  unfold StartsWithDots at hdots
  unfold variableName
  simp only [h, if_neg hdots]
  cases Text.isBlank c with
  | true => simp
  | false =>
    simp only [Bool.false_eq_true, if_false, iff_false]
    split
    · simp
    · split
      · split <;> simp [plain_ne_nil]
      · simp [plain_ne_nil]

theorem variableName_eq_nil_iff {n : Node} {error : String}
    (hread : isRead n = true) (ht : topic error = .variableName) :
    variableName n error = .ok [] ↔ Dropped n error := by
  constructor
  · intro hnil
    cases h : invalidVariable? error with
    | none => exact .unnamedVariable ht (Or.inl h)
    | some name =>
      by_cases hdots : StartsWithDots name
      · exact .variableMark ht h hdots ((variableName_of_dots n h hdots).mp hnil)
      · cases name with
        | nil => exact .unnamedVariable ht (Or.inr h)
        | cons c rest => exact .shiftedVariable ht h hdots ((variableName_of_plain n h hdots).mp hnil)
  · intro hdropped
    cases hdropped with
    | unnamedVariable _ h => rcases h with h | h <;> simp [variableName, h]
    | variableMark _ h hdots hmark => exact (variableName_of_dots n h hdots).mpr hmark
    | shiftedVariable _ h hdots hblank => exact (variableName_of_plain n h hdots).mpr hblank
    | unread h => simp [hread] at h
    | unquoted ht' => simp [ht] at ht'
    | unnamedSetting ht' => simp [ht] at ht'
    | settingMark ht' => simp [ht] at ht'
    | shiftedSetting ht' => simp [ht] at ht'

private theorem not_dropped {n : Node} {error : String} (hread : isRead n = true)
    (ha : topic error ≠ .argument) (hs : topic error ≠ .setting)
    (hv : topic error ≠ .variableName) : ¬ Dropped n error := by
  intro h
  cases h <;> simp_all

/-- What the check for faults says of a fault that is looked at. -/
theorem handle_eq_nil_iff {n : Node} {error : String} (hread : isRead n = true)
    (he : error.isEmpty = false) : handle n error = .ok [] ↔ Dropped n error := by
  rw [handle_eq n he]
  cases ht : topic error with
  | argument =>
    simp only [argument_eq_nil_iff]
    constructor
    · exact .unquoted ht
    · intro h
      cases h <;> simp_all
  | setting => exact setting_eq_nil_iff hread ht
  | variableName => exact variableName_eq_nil_iff hread ht
  | condition =>
    simp only [inBlock_ne_nil, false_iff]
    exact not_dropped hread (by simp [ht]) (by simp [ht]) (by simp [ht])
  | loop =>
    simp only [inBlock_ne_nil, false_iff]
    exact not_dropped hread (by simp [ht]) (by simp [ht]) (by simp [ht])
  | other =>
    simp only [Except.ok.injEq, plain_ne_nil, false_iff]
    exact not_dropped hread (by simp [ht]) (by simp [ht]) (by simp [ht])

def IsMarkedCall (s : Statement) : Prop :=
  s.kind = .keywordCall ∧ "...".toList.isPrefixOf (s.keyword?.getD "").toList = true

theorem inNode_eq_nil_iff (n : Node) :
    inNode n = .ok [] ↔
      (∀ s, n = .leaf s → ¬ IsMarkedCall s) ∧
        ∀ error ∈ n.errors, error.isEmpty = false → Dropped n error := by
  cases hread : isRead n with
  | false =>
    rw [and_iff_left fun error _ _ => .unread hread]
    cases n with
    | block kind header body orelse close errors => cases kind <;> simp_all [inNode, isRead]
    | leaf s =>
      have hkind : s.kind = .keywordCall := by simpa [isRead] using hread
      simp only [inNode, IsMarkedCall, hkind, if_true, Node.leaf.injEq, true_and, forall_eq',
        Except.ok.injEq]
      split <;> simp_all [plain_ne_nil]
  | true =>
    have hgather : inNode n = gather (handle n) n.errors := by
      cases n with
      | block kind header body orelse close errors =>
        cases kind <;> first | rfl | simp [isRead] at hread
      | leaf s =>
        have hkind : s.kind ≠ .keywordCall := by simpa [isRead] using hread
        simp only [inNode, hkind, if_false, Node.errors]
    have hunmarked : ∀ s, n = .leaf s → ¬ IsMarkedCall s := by
      rintro s rfl ⟨hkind, -⟩
      simp [isRead, hkind] at hread
    rw [hgather, gather_eq_nil_iff, and_iff_right hunmarked]
    apply forall₂_congr
    intro error _
    cases he : error.isEmpty with
    | true => simp [handle, he]
    | false => simp [handle_eq_nil_iff hread he]

/-- The check for faults finds nothing exactly if it passes over all faults and no call starts as a
continuation mark. -/
theorem check_eq_nil_iff (d : Document) :
    check d = .ok [] ↔
      (∀ s, .leaf s ∈ d.visited → ¬ IsMarkedCall s) ∧
        ∀ n ∈ d.visited, ∀ error ∈ n.errors, error.isEmpty = false → Dropped n error := by
  rw [check, gather_eq_nil_iff]
  simp only [inNode_eq_nil_iff]
  constructor
  · intro h
    exact ⟨fun s hs => (h _ hs).1 s rfl, fun n hn => (h n hn).2⟩
  · rintro ⟨hcalls, hfaults⟩ n hn
    refine ⟨?_, hfaults n hn⟩
    rintro s rfl
    exact hcalls s hn

end ParsingError

/-! ## What the check of the first column finds -/

namespace Layout

def IsShiftedRow (s : Statement) : Prop :=
  ∃ t ts, s.dataTokens = t :: ts ∧ t.kind = .variableName ∧
    (t.value.isEmpty = true ∨ t.value.toList.head? = some ' ')

/-- A setting of suites that was not known because of blanks before it, or because all of it was taken
for a comment. -/
def IsShiftedSetting (n : Node) (error : String) : Prop :=
  (∃ c rest, unknownSetting? error = some (c :: rest) ∧ Text.isBlank c = true ∧
    (suiteSettingAt? (c :: rest)).isSome = true) ∨
  ∃ s t, unknownSetting? error = some [] ∧ n = .leaf s ∧ s.token? [.comment] = some t ∧
    settingKey t.value.toList ∈ suiteSettings.map (·.1.toList)

theorem inVariableRow_nil_iff {n : Node} {findings : List Finding}
    (h : inVariableRow n = .ok findings) : findings = [] ↔ ∀ s, n = .leaf s → ¬ IsShiftedRow s := by
  cases n with
  | block kind header body orelse close errors => simp [inVariableRow] at h
  | leaf s =>
    simp only [inVariableRow] at h
    simp only [Node.leaf.injEq, forall_eq', IsShiftedRow]
    cases hs : s.dataTokens with
    | nil => simp_all
    | cons t ts =>
      simp only [hs, Except.ok.injEq] at h
      subst h
      simp only [List.cons.injEq, ite_eq_right_iff, reduceCtorEq, imp_false, Bool.and_eq_true,
        Bool.or_eq_true, decide_eq_true_eq]
      constructor
      · rintro hnot ⟨t', ts', ⟨rfl, rfl⟩, hkind, hvalue⟩
        exact hnot ⟨hkind, hvalue⟩
      · intro hnot hshifted
        exact hnot ⟨t, ts, ⟨rfl, rfl⟩, hshifted⟩

theorem inSettingFault_nil_iff {n : Node} {error : String} {findings : List Finding}
    (h : inSettingFault n error = .ok findings) :
    findings = [] ↔ ¬ IsShiftedSetting n error := by
  unfold inSettingFault at h
  unfold IsShiftedSetting
  split at h
  · next hnone => simp_all
  · next hname =>
    cases n with
    | block kind header body orelse close errors => simp at h
    | leaf s =>
      simp only [Except.ok.injEq] at h
      subst h
      rw [hname]
      cases htoken : s.token? [.comment] with
      | none => simp [htoken]
      | some t =>
        dsimp only
        by_cases hkey : settingKey t.value.toList ∈ suiteSettings.map (·.1.toList)
        · rw [if_pos (List.contains_iff_mem.mpr hkey)]
          exact iff_of_false (List.cons_ne_nil _ _)
            (not_not_intro (Or.inr ⟨s, t, rfl, rfl, htoken, hkey⟩))
        · rw [if_neg (mt List.contains_iff_mem.mp hkey)]
          refine iff_of_true rfl ?_
          rintro (⟨c, rest, h, -⟩ | ⟨s', t', -, hs', ht', hkey'⟩)
          · simp at h
          · obtain rfl := Node.leaf.inj hs'
            obtain rfl := Option.some.inj (htoken.symm.trans ht')
            exact hkey hkey'
  · next c rest hname =>
    simp only [Except.ok.injEq] at h
    subst h
    rw [hname]
    by_cases hshifted : Text.isBlank c = true ∧ (suiteSettingAt? (c :: rest)).isSome = true
    · rw [if_pos (by simpa using hshifted)]
      exact iff_of_false (List.cons_ne_nil _ _) (not_not_intro (Or.inl ⟨c, rest, rfl, hshifted⟩))
    · rw [if_neg (by simpa using hshifted)]
      refine iff_of_true rfl ?_
      rintro (⟨c', rest', h, hshifted'⟩ | ⟨s, t, h, -⟩)
      · obtain ⟨rfl, rfl⟩ := List.cons.inj (Option.some.inj h)
        exact hshifted hshifted'
      · simp at h

end Layout

end Check

namespace Document

def faults (d : Document) : List (Node × String) :=
  d.visited.flatMap fun n => (n.errors.filter (!·.isEmpty)).map (n, ·)

def rowsOf (d : Document) (kind : SectionKind) : List Node :=
  (d.sections.filter (·.kind = kind)).flatMap (·.body)

@[simp] theorem mem_rowsOf {d : Document} {kind : SectionKind} {n : Node} :
    n ∈ d.rowsOf kind ↔ ∃ sec, (sec ∈ d.sections ∧ sec.kind = kind) ∧ n ∈ sec.body := by
  simp [rowsOf]

@[simp] theorem mem_faults {d : Document} {n : Node} {error : String} :
    (n, error) ∈ d.faults ↔ n ∈ d.visited ∧ error ∈ n.errors ∧ error.isEmpty = false := by
  simp only [faults, List.mem_flatMap, List.mem_map, List.mem_filter, Bool.not_eq_true',
    Prod.mk.injEq]
  constructor
  · rintro ⟨m, hm, e, he, rfl, rfl⟩
    exact ⟨hm, he⟩
  · rintro ⟨hn, he⟩
    exact ⟨n, hn, error, he, rfl, rfl⟩

end Document

theorem Node.mem_visitedUntilAll (stop : BlockKind → Bool) {n : Node} {ns : List Node} (h : n ∈ ns) :
    n ∈ visitedUntilAll stop ns := by
  induction ns with
  | nil => simp at h
  | cons m ns ih =>
    rw [visitedUntilAll, List.mem_append]
    rcases List.mem_cons.mp h with rfl | hrest
    · left
      cases n <;> simp [visitedUntil]
    · exact Or.inr (ih hrest)

private theorem Document.mem_visited_of_row {d : Document} {kind : SectionKind} {n : Node}
    (h : n ∈ d.rowsOf kind) : n ∈ d.visited := by
  obtain ⟨sec, hsec, hn⟩ := mem_rowsOf.mp h
  refine List.mem_flatMap.mpr ⟨sec, hsec.1, ?_⟩
  exact List.mem_append_right _ (Node.mem_visitedUntilAll _ hn)

namespace Check

open Fault

/-- The check of the first column finds nothing exactly if no variable is shifted in its section, and
no fault is that of a setting which is shifted in its section. -/
theorem Layout.checkAlignment_nil_iff {d : Document} {findings : List Finding}
    (h : checkAlignment d = .ok findings) :
    findings = [] ↔
      (∀ s, .leaf s ∈ d.rowsOf .variableRows → ¬ IsShiftedRow s) ∧
        ∀ n error, (n, error) ∈ d.faults → n ∈ d.rowsOf .settings → ¬ IsShiftedSetting n error := by
  constructor
  · rintro rfl
    have hsections := gather_eq_nil_iff.mp h
    constructor
    · intro s hs
      obtain ⟨sec, hsec, hrow⟩ := Document.mem_rowsOf.mp hs
      have hhere := hsections sec hsec.1
      simp only [inSection, hsec.2] at hhere
      exact (inVariableRow_nil_iff (gather_eq_nil_iff.mp hhere _ hrow)).mp rfl s rfl
    · intro n error hfault hrow hshifted
      obtain ⟨sec, hsec, hrow⟩ := Document.mem_rowsOf.mp hrow
      have hhere := hsections sec hsec.1
      simp only [inSection, hsec.2] at hhere
      have hmember : error ∈ n.errors.filter (mentions · "Non-existing setting") := by
        refine List.mem_filter.mpr ⟨(Document.mem_faults.mp hfault).2.1, ?_⟩
        rcases hshifted with ⟨c, rest, hname, -⟩ | ⟨s, t, hname, -⟩
        · exact mentions_of_unknownSetting? hname
        · exact mentions_of_unknownSetting? hname
      have hnil := gather_eq_nil_iff.mp (gather_eq_nil_iff.mp hhere n hrow) error hmember
      exact (inSettingFault_nil_iff hnil).mp rfl hshifted
  · rintro ⟨hrows, hfaults⟩
    refine (gather_nil_iff h).mpr fun sec hsec here hhere => ?_
    cases hkind : sec.kind with
    | variableRows =>
      simp only [inSection, hkind] at hhere
      refine (gather_nil_iff hhere).mpr fun n hn inRow hinRow => ?_
      refine (inVariableRow_nil_iff hinRow).mpr ?_
      rintro s rfl
      exact hrows s (Document.mem_rowsOf.mpr ⟨sec, ⟨hsec, hkind⟩, hn⟩)
    | settings =>
      simp only [inSection, hkind] at hhere
      refine (gather_nil_iff hhere).mpr fun n hn inRow hinRow => ?_
      refine (gather_nil_iff hinRow).mpr fun error herror inFault hinFault => ?_
      have hrow : n ∈ d.rowsOf .settings := Document.mem_rowsOf.mpr ⟨sec, ⟨hsec, hkind⟩, hn⟩
      obtain ⟨hmember, hmentions⟩ := List.mem_filter.mp herror
      refine (inSettingFault_nil_iff hinFault).mpr (hfaults n error ?_ hrow)
      refine Document.mem_faults.mpr ⟨Document.mem_visited_of_row hrow, hmember, ?_⟩
      cases hempty : error.isEmpty with
      | false => rfl
      | true =>
        rw [String.isEmpty_iff.mp hempty] at hmentions
        exact absurd hmentions (by decide)
    | testCases => simp_all [inSection]
    | keywords => simp_all [inSection]
    | comments => simp_all [inSection]

end Check

/-! ## What the two checkers report -/

/-- The job of checking a document in which no comment switches anything off. -/
def Subject.openJob (s : Subject) (host : Host) : Job := { s.job host with off := .none }

namespace Linter

/-- What one checker reports on a document in which no comment switches anything off. -/
def scan (l : Linter) (c : Checker) (s : Subject) : Except LintError (List Issue) :=
  match l.registry.active.find? (·.tag = c) with
  | some entry => outcome (s.openJob l.host) ⟨s.document, l.memory⟩ entry
  | none => .ok []

variable (host : Host) (on : RuleKey → Bool) (t : Tuning)

theorem scan_tuned (memory : Memory) (c : Checker) (s : Subject) :
    scan ⟨host, .tuned host on t, memory⟩ c s =
      outcome (s.openJob host) ⟨s.document, memory⟩ (c.tuned host on t) := by
  have hfind : (Registry.tuned host on t).active.find? (·.tag = c) = some (c.tuned host on t) := by
    rw [Registry.active_tuned, List.find?_map]
    have hc : host.checkers.find? ((fun entry => decide (entry.tag = c)) ∘ (·.tuned host on t)) =
        some c := by
      cases hfind : host.checkers.find? ((fun entry => decide (entry.tag = c)) ∘
          (·.tuned host on t)) with
      | none => simpa [Checker.tuned] using List.find?_eq_none.mp hfind c (host.mem_checkers c)
      | some d =>
        have hd : d = c := by simpa [Checker.tuned] using List.find?_some hfind
        rw [hd]
    rw [hc]
    rfl
  simp only [scan, hfind]

end Linter

namespace Checker

variable (host : Host) (on : RuleKey → Bool) (t : Tuning) (c : Checker)

theorem issueOf_isSome (hon : ∀ key, on key = true) {source : String} {f : Finding} {i : Option Issue}
    (h : (c.tuned host on t).issueOf source f = .ok i) : i.isSome = true := by
  rw [CheckerEntry.issueOf, CheckerEntry.issue, Registry.ruleNamed?_tuned] at h
  cases hfind : c.keys.find? (·.name = f.rule.name) with
  | none => simp [hfind] at h
  | some key =>
    simp only [hfind, Option.map_some] at h
    split at h
    · simp at h
    · simp only [RuleKey.tuned, hon, if_true, Except.ok.injEq] at h
      simp [← h]

theorem issuesOf_nil_iff (hon : ∀ key, on key = true) {source : String} {findings : List Finding}
    {issues : List Issue}
    (h : (c.tuned host on t).issuesOf source .none findings = .ok issues) :
    issues = [] ↔ findings = [] := by
  unfold CheckerEntry.issuesOf at h
  cases findings with
  | nil =>
    simp only [List.mapM_nil, pure, Except.pure, bind, Except.bind, List.filterMap_nil,
      List.filter_nil, Except.ok.injEq] at h
    simp [← h]
  | cons f findings =>
    rw [List.mapM_cons] at h
    obtain ⟨made, hmade, h⟩ := exists_of_bind_eq_ok h
    obtain ⟨first, hf, hmade⟩ := exists_of_bind_eq_ok hmade
    obtain ⟨more, -, hmade⟩ := exists_of_bind_eq_ok hmade
    obtain ⟨i, rfl⟩ := Option.isSome_iff_exists.mp (issueOf_isSome host on t c hon hf)
    simp [← Except.ok.inj h, ← Except.ok.inj hmade, Disablers.covers, Disablers.none]

end Checker

namespace Linter

private theorem outcome_nil_iff {host : Host} {on : RuleKey → Bool} {t : Tuning} (hon : ∀ key, on key = true)
    {subject : Subject} {w : Wake} {c : Checker} {issues : List Issue}
    (h : outcome (subject.openJob host) w (c.tuned host on t) = .ok issues) :
    ∃ findings, (c.run (subject.openJob host) (t.values c) w).1 = .ok findings ∧
      (issues = [] ↔ findings = []) := by
  obtain ⟨findings, hrun, hissues⟩ := outcome_ok h
  exact ⟨findings, hrun, c.issuesOf_nil_iff host on t hon hissues⟩

end Linter

namespace Options

open Check

/-- Where all rules are on and the reader found one fault in a document, the checks for parsing errors (0401,
0405, 0407 to 0413) and for left alignment (1014, 1016) both report nothing exactly if the first passes over
the fault, the second does not take it over, and there is nothing else that they report without a fault. -/
theorem sole_fault_lost_iff (o : Options) {host : Host} {notes : List String} {s : Setup}
    (h : o.setup host = (notes, .ok s))
    (hall : ∀ key : RuleKey, s.linter.registry.enables key.id = true) {subject : Subject} {n : Node}
    {error : String} (hsole : subject.document.faults = [(n, error)]) {found more : List Issue}
    (hfound : s.linter.scan .parsingErrors subject = .ok found)
    (hmore : s.linter.scan .leftAlignment subject = .ok more) :
    found ++ more = [] ↔
      ParsingError.Dropped n error ∧
      ¬ (n ∈ subject.document.rowsOf .settings ∧ Layout.IsShiftedSetting n error) ∧
      (∀ call, .leaf call ∈ subject.document.visited → ¬ ParsingError.IsMarkedCall call) ∧
      ∀ row, .leaf row ∈ subject.document.rowsOf .variableRows → ¬ Layout.IsShiftedRow row := by
  obtain ⟨-, t, -, hlinter⟩ := setup_ok_iff.mp h
  have hon : ∀ key, o.selection.picks key = true := fun key =>
    (enables_eq_picks h key).symm.trans (hall key)
  rw [hlinter, Linter.scan_tuned] at hfound hmore
  obtain ⟨faulty, hfaulty, hfoundNil⟩ := Linter.outcome_nil_iff hon hfound
  obtain ⟨shifted, hshifted, hmoreNil⟩ := Linter.outcome_nil_iff hon hmore
  have hfault : ∀ m e, (m, e) ∈ subject.document.faults ↔ m = n ∧ e = error := by
    intro m e
    rw [hsole, List.mem_singleton, Prod.mk.injEq]
  have hfirst : faulty = [] ↔ ParsingError.check subject.document = .ok [] := by
    rw [show ParsingError.check subject.document = .ok faulty from hfaulty, Except.ok.injEq]
  rw [List.append_eq_nil_iff, hfoundNil, hmoreNil, hfirst, ParsingError.check_eq_nil_iff,
    Layout.checkAlignment_nil_iff hshifted]
  constructor
  · rintro ⟨⟨hcalls, hdropped⟩, hrows, hsettings⟩
    obtain ⟨hn, herror, hfilled⟩ := Document.mem_faults.mp ((hfault n error).mpr ⟨rfl, rfl⟩)
    refine ⟨hdropped n hn error herror hfilled, ?_, hcalls, hrows⟩
    rintro ⟨hrow, hsetting⟩
    exact hsettings n error ((hfault n error).mpr ⟨rfl, rfl⟩) hrow hsetting
  · rintro ⟨hdropped, htaken, hcalls, hrows⟩
    refine ⟨⟨hcalls, ?_⟩, hrows, ?_⟩
    · intro m hm e he hfilled
      obtain ⟨rfl, rfl⟩ := (hfault m e).mp (Document.mem_faults.mpr ⟨hm, he, hfilled⟩)
      exact hdropped
    · intro m e hme hrow hsetting
      obtain ⟨rfl, rfl⟩ := (hfault m e).mp hme
      exact htaken ⟨hrow, hsetting⟩

theorem enables_standard {host : Host} {s : Setup} (h : standard.setup host = ([], .ok s))
    (key : RuleKey) : s.linter.registry.enables key.id = true := by
  rw [enables_eq_picks h]
  exact congrFun Selection.picks_everything key

end Options

def Statement.faultyCall : Statement :=
  ⟨.keywordCall, [⟨.separator, "    ", 3, 0⟩, ⟨.keyword, "Log", 3, 4⟩], ["Invalid call."]⟩

def Subject.faultyCall : Subject :=
  ⟨"a.robot", .text [], ⟨none, [⟨.testCases, none,
    [.block .testCase ⟨.testCaseName, [⟨.testCaseName, "Test", 2, 0⟩], []⟩ [.leaf .faultyCall] none
      none []]⟩]⟩⟩

theorem Options.sole_fault_lost_iff_faultyCall :
    ∃ (s : Setup) (found more : List Issue), standard.setup .plain = ([], .ok s) ∧
      Subject.faultyCall.document.faults = [(.leaf .faultyCall, "Invalid call.")] ∧
      s.linter.scan .parsingErrors .faultyCall = .ok found ∧
      s.linter.scan .leftAlignment .faultyCall = .ok more ∧ found ++ more = [] := by
  have hsetup := setup_standard .plain
  have hfaults : Subject.faultyCall.document.faults = [(.leaf .faultyCall, "Invalid call.")] := rfl
  obtain ⟨found, hfound⟩ : ∃ found, Linter.scan ⟨.plain, .tuned .plain standard.selection.picks .start,
      .blank⟩ .parsingErrors .faultyCall = .ok found := by
    rw [Linter.scan_tuned]
    exact ⟨_, rfl⟩
  obtain ⟨more, hmore⟩ : ∃ more, Linter.scan ⟨.plain, .tuned .plain standard.selection.picks .start,
      .blank⟩ .leftAlignment .faultyCall = .ok more := by
    rw [Linter.scan_tuned]
    exact ⟨_, rfl⟩
  refine ⟨_, found, more, hsetup, hfaults, hfound, hmore, ?_⟩
  refine (sole_fault_lost_iff standard hsetup (enables_standard hsetup) hfaults hfound hmore).mpr ?_
  refine ⟨.unread rfl, ?_, ?_, ?_⟩
  · rintro ⟨hrow, -⟩
    simp [Document.rowsOf, Subject.faultyCall] at hrow
  · intro call hcall
    have hstatements : Subject.faultyCall.document.visited.filterMap Node.statement? =
        [⟨.testCaseName, [⟨.testCaseName, "Test", 2, 0⟩], []⟩, .faultyCall] := rfl
    have hmember : call ∈ Subject.faultyCall.document.visited.filterMap Node.statement? :=
      List.mem_filterMap.mpr ⟨_, hcall, rfl⟩
    rw [hstatements, List.mem_cons, List.mem_singleton] at hmember
    rcases hmember with rfl | rfl
    · exact fun h => absurd h.1 (by decide)
    · exact fun h => absurd h.2 (by decide)
  · intro row hrow
    simp [Document.rowsOf, Subject.faultyCall] at hrow

def Statement.emptyArgument : Statement :=
  ⟨.arguments, [⟨.separator, "    ", 3, 0⟩, ⟨.arguments, "[Arguments]", 3, 4⟩,
    ⟨.separator, "    ", 3, 15⟩, ⟨.argument, "$\x7ba\x7d", 3, 19⟩, ⟨.eol, "\n", 3, 23⟩,
    ⟨.separator, "    ", 4, 0⟩, ⟨.continuation, "...", 4, 4⟩, ⟨.argument, "", 4, 7⟩,
    ⟨.eol, "\n", 4, 7⟩], ["Invalid argument syntax ''."]⟩

def Subject.emptyArgument : Subject :=
  ⟨"a.robot", .text [], ⟨none, [⟨.keywords, none,
    [.block .keyword ⟨.keywordName, [⟨.keywordName, "Keyword", 2, 0⟩], []⟩ [.leaf .emptyArgument] none
      none []]⟩]⟩⟩

/-- The fault of an empty argument is reported by neither checker. -/
theorem Options.fault_of_empty_argument_lost :
    ∃ s : Setup, standard.setup .plain = ([], .ok s) ∧
      (∀ key : RuleKey, s.linter.registry.enables key.id = true) ∧
      Subject.emptyArgument.document.faults =
        [(.leaf .emptyArgument, "Invalid argument syntax ''.")] ∧
      s.linter.scan .parsingErrors .emptyArgument = .ok [] ∧
      s.linter.scan .leftAlignment .emptyArgument = .ok [] := by
  have hsetup := setup_standard .plain
  refine ⟨_, hsetup, enables_standard hsetup, rfl, ?_, ?_⟩
  · rw [Linter.scan_tuned]
    rfl
  · rw [Linter.scan_tuned]
    rfl

end SuiteLint
