import SuiteLint.Proofs.SuiteTotals

/-!
# The case of setting names

The names of settings should be in title case or in upper case. A statement of each setting that exists is
looked at but for `Metadata`, `Test Template` and `Test Timeout`.
-/

namespace SuiteLint

/-! ## Title case and upper case -/

namespace Text

def isCapital (c : Char) : Bool := isUpper c || isTitle c

def isLetter (c : Char) : Bool := isCapital c || isLower c

def endsInLetter (s : List Char) : Bool := s.getLast?.any isLetter

/-- A capital does not follow a letter, and a small letter does. -/
structure FitsTitle (before : List Char) (c : Char) : Prop where
  capital : isCapital c = true → endsInLetter before = false
  small : isCapital c = false → isLower c = true → endsInLetter before = true

/-- Some letter, and each one a capital exactly where a word starts. -/
structure InTitleCase (s : List Char) : Prop where
  letter : ∃ c ∈ s, isLetter c = true
  fits : ∀ before c after, s = before ++ c :: after → FitsTitle before c

/-- Some letter in upper case, and none in another. -/
structure InUpperCase (s : List Char) : Prop where
  upper : ∃ c ∈ s, isUpper c = true
  only : ∀ c ∈ s, isLower c = false ∧ isTitle c = false

private theorem endsInLetter_concat (s : List Char) (c : Char) : endsInLetter (s ++ [c]) = isLetter c := by
  rw [endsInLetter, List.getLast?_concat, Option.any_some]

theorem forall_split_cons_iff {P : List Char → Char → Prop} (done : List Char) (c : Char)
    (rest : List Char) :
    (∀ before d after, c :: rest = before ++ d :: after → P (done ++ before) d) ↔
      P done c ∧ ∀ before d after, rest = before ++ d :: after → P (done ++ [c] ++ before) d := by
  constructor
  · intro h
    refine ⟨?_, fun before d after hrest => ?_⟩
    · simpa using h [] c rest rfl
    · rw [List.append_assoc]
      exact h (c :: before) d after (by rw [hrest, List.cons_append])
  · rintro ⟨hc, h⟩ before d after hsplit
    rcases List.cons_eq_append_iff.mp hsplit with ⟨rfl, hd⟩ | ⟨before, rfl, hrest⟩
    · obtain ⟨rfl, -⟩ := List.cons.inj hd
      simpa using hc
    · rw [List.append_cons]
      exact h before d after hrest

private theorem fitsTitle_of_capital {c : Char} (h : isCapital c = true) (before : List Char) :
    FitsTitle before c ↔ endsInLetter before = false :=
  ⟨fun hfits => hfits.capital h,
    fun hends => ⟨fun _ => hends, fun hc => (Bool.false_ne_true (hc.symm.trans h)).elim⟩⟩

private theorem fitsTitle_of_small {c : Char} (h : isCapital c = false) (hlower : isLower c = true)
    (before : List Char) : FitsTitle before c ↔ endsInLetter before = true :=
  ⟨fun hfits => hfits.small h hlower,
    fun hends => ⟨fun hc => (Bool.false_ne_true (h.symm.trans hc)).elim, fun _ _ => hends⟩⟩

private theorem fitsTitle_of_plain {c : Char} (h : isLetter c = false) (before : List Char) :
    FitsTitle before c := by
  obtain ⟨hcapital, hlower⟩ := Bool.or_eq_false_iff.mp h
  exact ⟨fun hc => (Bool.false_ne_true (hcapital.symm.trans hc)).elim,
    fun _ hl => (Bool.false_ne_true (hlower.symm.trans hl)).elim⟩

/-- Reading on after a part of a text. The two flags say how that part ends and whether it has a letter. -/
theorem isTitleFrom_iff (done rest : List Char) :
    isTitleFrom (endsInLetter done) (done.any isLetter) rest = true ↔
      (∃ c ∈ done ++ rest, isLetter c = true) ∧
        ∀ before c after, rest = before ++ c :: after → FitsTitle (done ++ before) c := by
  induction rest generalizing done with
  | nil => simp [isTitleFrom]
  | cons c rest ih =>
    have hrest := ih (done ++ [c])
    rw [endsInLetter_concat, List.any_append, List.any_cons, List.any_nil, Bool.or_false,
      List.append_assoc, List.singleton_append] at hrest
    rw [forall_split_cons_iff, isTitleFrom, ← and_left_comm, ← hrest]
    cases hcapital : isCapital c with
    | true =>
      have hletter : isLetter c = true := by rw [isLetter, hcapital, Bool.true_or]
      rw [fitsTitle_of_capital hcapital, if_pos (show (isUpper c || isTitle c) = true from hcapital),
        hletter, Bool.or_true, Bool.and_eq_true, Bool.not_eq_true']
    | false =>
      have hnot : ¬ (isUpper c || isTitle c) = true := fun hc =>
        Bool.false_ne_true (hcapital.symm.trans hc)
      rw [if_neg hnot]
      cases hlower : isLower c with
      | true =>
        have hletter : isLetter c = true := by rw [isLetter, hlower, Bool.or_true]
        rw [fitsTitle_of_small hcapital hlower, if_pos rfl, hletter, Bool.or_true, Bool.and_eq_true]
      | false =>
        have hletter : isLetter c = false := by rw [isLetter, hcapital, hlower, Bool.or_false]
        rw [if_neg Bool.false_ne_true, hletter, Bool.or_false]
        exact (and_iff_right (fitsTitle_of_plain hletter done)).symm

theorem isTitleText_iff (s : List Char) : isTitleText s = true ↔ InTitleCase s := by
  have h := isTitleFrom_iff [] s
  exact h.trans ⟨fun ⟨hletter, hfits⟩ => ⟨hletter, hfits⟩, fun ⟨hletter, hfits⟩ => ⟨hletter, hfits⟩⟩

theorem isUpperText_iff (s : List Char) : isUpperText s = true ↔ InUpperCase s := by
  rw [isUpperText, Bool.and_eq_true, List.any_eq_true, Bool.not_eq_true', List.any_eq_false]
  simp only [Bool.or_eq_true, not_or, Bool.not_eq_true]
  exact ⟨fun ⟨hupper, honly⟩ => ⟨hupper, honly⟩, fun ⟨hupper, honly⟩ => ⟨hupper, honly⟩⟩

instance (s : List Char) : Decidable (InTitleCase s) := decidable_of_iff _ (isTitleText_iff s)

instance (s : List Char) : Decidable (InUpperCase s) := decidable_of_iff _ (isUpperText_iff s)

end Text

/-! ## The settings that exist -/

def Text.titlesIn (table : String) : List String :=
  (splitAt ',' table.toList).map fun piece => String.ofList (trim piece)

namespace StatementKind

/-- The titles of settings, in brackets where they belong to test cases and keywords, with the kinds of their
statements. -/
def settingTitles : List (String × StatementKind) :=
  [("Documentation", documentation), ("Suite Setup", suiteSetup), ("Suite Teardown", suiteTeardown),
   ("Metadata", metadata), ("Test Setup", testSetup), ("Test Teardown", testTeardown),
   ("Test Template", testTemplate), ("Test Timeout", testTimeout), ("Force Tags", forceTags),
   ("Default Tags", defaultTags), ("Library", libraryImport), ("Resource", resourceImport),
   ("Variables", variablesImport), ("[Documentation]", documentation), ("[Tags]", tags),
   ("[Setup]", setup), ("[Teardown]", teardown), ("[Template]", template), ("[Timeout]", timeout),
   ("[Arguments]", arguments), ("[Return]", returnSetting)]

def ofTitle? (title : String) : Option StatementKind := settingTitles.lookup title

def listedTitles : List String :=
  Fault.suiteSettings.map Prod.snd ++ Text.titlesIn Check.ParsingError.testCaseSettings ++
    Text.titlesIn Check.ParsingError.keywordSettings

def IsSetting (kind : StatementKind) : Prop := ∃ title ∈ listedTitles, ofTitle? title = some kind

def IsPassedOver (kind : StatementKind) : Prop :=
  kind = metadata ∨ kind = testTemplate ∨ kind = testTimeout

instance (kind : StatementKind) : Decidable kind.IsPassedOver :=
  inferInstanceAs (Decidable (_ ∨ _))

def listed : List StatementKind :=
  [documentation, suiteSetup, suiteTeardown, metadata, testSetup, testTeardown, testTemplate, testTimeout,
   forceTags, defaultTags, libraryImport, resourceImport, variablesImport,
   documentation, tags, setup, teardown, template, timeout,
   documentation, tags, arguments, returnSetting, teardown, timeout]

private theorem map_ofTitle?_listedTitles : listedTitles.map ofTitle? = listed.map some := by
  rw [listedTitles, Text.titlesIn, Text.titlesIn,
    Text.toList_of_eq (s := Check.ParsingError.testCaseSettings) rfl,
    Text.toList_of_eq (s := Check.ParsingError.keywordSettings) rfl]
  decide

theorem isSetting_iff (kind : StatementKind) : kind.IsSetting ↔ kind ∈ listed := by
  rw [IsSetting, ← List.mem_map, map_ofTitle?_listedTitles]
  simp

instance (kind : StatementKind) : Decidable kind.IsSetting := decidable_of_iff' _ kind.isSetting_iff

theorem isNamedSetting_iff (kind : StatementKind) :
    Check.Naming.isNamedSetting kind = true ↔ kind.IsSetting ∧ ¬ kind.IsPassedOver := by
  rw [isSetting_iff]
  cases kind <;> decide

end StatementKind

namespace Statement

def IsMiscased (s : Statement) : Prop :=
  s.kind.IsSetting ∧ ∃ t ∈ s.dataTokens.head?,
    ¬ Text.InTitleCase t.value.toList ∧ ¬ Text.InUpperCase t.value.toList

instance (s : Statement) : Decidable s.IsMiscased := inferInstanceAs (Decidable (_ ∧ _))

/-- What the check of names takes for granted: the tokens of headers and settings, and a name for an import
that has another one. -/
structure IsReadable (s : Statement) : Prop where
  data : s.kind = .sectionHeader ∨ Check.Naming.isNamedSetting s.kind = true → s.dataTokens ≠ []
  name : s.kind = .libraryImport → s.token? [.withName] ≠ none → s.tokensOf .name ≠ []

theorem isReadable_iff (s : Statement) :
    s.IsReadable ↔
      (s.kind = .sectionHeader ∨ Check.Naming.isNamedSetting s.kind = true → s.dataTokens ≠ []) ∧
        (s.kind = .libraryImport → s.token? [.withName] ≠ none → s.tokensOf .name ≠ []) :=
  ⟨fun h => ⟨h.data, h.name⟩, fun h => ⟨h.1, h.2⟩⟩

instance (s : Statement) : Decidable s.IsReadable := decidable_of_iff' _ s.isReadable_iff

def nameEntry (s : Statement) : String × String × Int × Int :=
  ("0306", "Setting name should be title or upper case", anchor s.line, 1)

end Statement

/-! ## What is found -/

private theorem exists_map_ok_iff {ε α β : Type} {x : Except ε α} {f : α → β} :
    (∃ b, x.map f = .ok b) ↔ ∃ a, x = .ok a := by
  cases x <;> simp [Except.map]

namespace Check.Naming

theorem firstData_eq_ok_iff {s : Statement} {t : Token} :
    firstData s = .ok t ↔ s.dataTokens.head? = some t := by
  unfold firstData
  split
  · next u _ heq => rw [heq, List.head?_cons, Except.ok.injEq, Option.some.injEq]
  · next heq => rw [heq]; simp

theorem exists_firstData_iff (s : Statement) :
    (∃ t, firstData s = .ok t) ↔ s.dataTokens ≠ [] := by
  simp only [firstData_eq_ok_iff]
  rw [← Option.isSome_iff_exists, List.isSome_head?]

def nameFinding (s : Statement) : Finding := found .settingNameNotInTitleCase [] (anchor s.line) 1

theorem exists_otherName_iff {s : Statement} (hkind : s.kind = .libraryImport) :
    (∃ findings, otherName s = .ok findings) ↔
      (s.token? [.withName] ≠ none → s.tokensOf .name ≠ []) := by
  have hname : s.name? = (s.tokensOf .name).head?.map (·.value) := by
    have hfind : s.name? = s.value? .name := by rw [Statement.name?, hkind]
    rw [hfind, Statement.value?, Statement.token?, Statement.tokensOf, List.head?_filter]
    simp only [List.contains_cons, List.contains_nil, Bool.or_false, beq_eq_decide]
  unfold otherName
  rw [hname]
  cases s.token? [.withName] with
  | none => simp
  | some _ => cases hnames : s.tokensOf .name <;> simp [List.getLast?_cons]

theorem inSetting_of_header {s : Statement} (h : s.kind = .sectionHeader) :
    inSetting s = (firstData s).map fun t =>
      if isFramed t.value.toList && isTitleOrUpper t.value then []
      else [found .sectionNameInvalid [] (anchor s.line) 1] := by
  rw [inSetting, if_pos h]
  rfl

def moreOf (s : Statement) : Except Breakdown (List Finding) :=
  if s.kind = .libraryImport then otherName s else .ok []

theorem inSetting_of_named {s : Statement} (h : isNamedSetting s.kind = true) :
    inSetting s = (firstData s).bind fun t => (moreOf s).map fun more =>
      (if isTitleOrUpper t.value then [] else [nameFinding s]) ++ more := by
  have hheader : s.kind ≠ .sectionHeader := by
    intro hkind
    rw [hkind] at h
    cases h
  rw [inSetting, if_neg hheader, if_pos h, moreOf]
  by_cases hlibrary : s.kind = .libraryImport
  · simp only [if_pos hlibrary]
    rfl
  · simp only [if_neg hlibrary]
    rfl

theorem inSetting_of_other {s : Statement} (hheader : s.kind ≠ .sectionHeader)
    (h : isNamedSetting s.kind = false) : inSetting s = .ok [] := by
  rw [inSetting, if_neg hheader, if_neg (Bool.eq_false_iff.mp h)]

private theorem exists_moreOf_iff (s : Statement) :
    (∃ findings, moreOf s = .ok findings) ↔
      (s.kind = .libraryImport → s.token? [.withName] ≠ none → s.tokensOf .name ≠ []) := by
  unfold moreOf
  split
  · next hkind => rw [exists_otherName_iff hkind, forall_prop_of_true hkind]
  · next hkind => simp [hkind]

theorem exists_inSetting_iff (s : Statement) :
    (∃ findings, inSetting s = .ok findings) ↔ s.IsReadable := by
  rw [s.isReadable_iff, ← exists_moreOf_iff, ← exists_firstData_iff]
  have hmore (hkind : s.kind ≠ .libraryImport) : ∃ more, moreOf s = .ok more := ⟨[], if_neg hkind⟩
  by_cases hheader : s.kind = .sectionHeader
  · rw [inSetting_of_header hheader, exists_map_ok_iff]
    simp [hheader, hmore]
  · cases hnamed : isNamedSetting s.kind with
    | true =>
      rw [inSetting_of_named hnamed]
      cases firstData s with
      | error _ => simp [Except.bind]
      | ok t => simpa [Except.bind] using exists_map_ok_iff
    | false =>
      have hlibrary : s.kind ≠ .libraryImport := by
        intro hkind
        rw [hkind] at hnamed
        cases hnamed
      rw [inSetting_of_other hheader hnamed]
      simp [hheader, hmore hlibrary]

def OnSetting (f : Finding) : Prop := f.rule ∈ Checker.settingNaming.keys ∧ f.args = []

private theorem OnSetting.fills {f : Finding} (h : OnSetting f) : f.Fills := by
  refine Finding.fills_of_plain (fun key hkey => ?_) h
  simp only [Checker.keys, List.mem_cons, List.not_mem_nil, or_false] at hkey
  rcases hkey with rfl | rfl | rfl | rfl <;> exact RuleKey.places_of_template rfl rfl

/-- On the other name of an import nothing is found that is about the names of settings. -/
theorem moreOf_spec {s : Statement} {findings : List Finding} (h : moreOf s = .ok findings) :
    ∀ f ∈ findings, OnSetting f ∧ f.rule ≠ .settingNameNotInTitleCase := by
  have hempty (line col : Int) : OnSetting (found .emptyLibraryAlias [] line col) :=
    ⟨show RuleKey.emptyLibraryAlias ∈ _ by decide, rfl⟩
  have hsame (line col : Int) : OnSetting (found .duplicatedLibraryAlias [] line col) :=
    ⟨show RuleKey.duplicatedLibraryAlias ∈ _ by decide, rfl⟩
  unfold moreOf at h
  split at h
  · unfold otherName at h
    split at h
    · rw [← Except.ok.inj h, List.forall_mem_map]
      exact fun t _ => ⟨hempty _ _, show RuleKey.emptyLibraryAlias ≠ _ by decide⟩
    · split at h
      · next name last _ _ =>
        rw [← Except.ok.inj h]
        split
        · exact List.forall_mem_singleton.mpr ⟨hsame _ _, show RuleKey.duplicatedLibraryAlias ≠ _ by decide⟩
        · exact List.forall_mem_nil _
      · cases h
  · rw [← Except.ok.inj h]
    exact List.forall_mem_nil _

private theorem isTitleOrUpper_iff (s : String) :
    isTitleOrUpper s = true ↔ Text.InTitleCase s.toList ∨ Text.InUpperCase s.toList := by
  rw [isTitleOrUpper, Bool.or_eq_true, Text.isTitleText_iff, Text.isUpperText_iff]

theorem onSetting_header {s : Statement} {findings : List Finding} (hheader : s.kind = .sectionHeader)
    (h : inSetting s = .ok findings) :
    ∀ f ∈ findings, OnSetting f ∧ f.rule ≠ .settingNameNotInTitleCase := by
  rw [inSetting_of_header hheader] at h
  obtain ⟨t, -, h⟩ := exists_of_bind_eq_ok h
  rw [← Except.ok.inj h]
  dsimp only
  split
  · exact List.forall_mem_nil _
  · exact List.forall_mem_singleton.mpr
      ⟨⟨show RuleKey.sectionNameInvalid ∈ _ by decide, rfl⟩, show RuleKey.sectionNameInvalid ≠ _ by decide⟩

/-- Of the settings that are looked at, the name is found wrong exactly if it is in neither case. -/
theorem inSetting_named {s : Statement} {findings : List Finding} (hnamed : isNamedSetting s.kind = true)
    (h : inSetting s = .ok findings) :
    (∀ f ∈ findings, OnSetting f) ∧ RuleKey.settingNameNotInTitleCase.among findings =
      if s.IsMiscased then [nameFinding s] else [] := by
  rw [inSetting_of_named hnamed] at h
  obtain ⟨t, hfirst, h⟩ := exists_of_bind_eq_ok h
  obtain ⟨more, hmore, h⟩ := exists_of_bind_eq_ok h
  have hspec := moreOf_spec hmore
  have hnone : RuleKey.settingNameNotInTitleCase.among more = [] :=
    RuleKey.among_eq_nil fun f hf => (hspec f hf).2
  have hmiscased : s.IsMiscased ↔ ¬ isTitleOrUpper t.value = true := by
    rw [Statement.IsMiscased, firstData_eq_ok_iff.mp hfirst, isTitleOrUpper_iff, not_or]
    simp [((StatementKind.isNamedSetting_iff _).mp hnamed).1]
  rw [← Except.ok.inj h, List.forall_mem_append, RuleKey.among_append, hnone, List.append_nil]
  by_cases hcase : isTitleOrUpper t.value = true
  · rw [if_pos hcase, if_neg (fun hmis => hmiscased.mp hmis hcase)]
    exact ⟨⟨List.forall_mem_nil _, fun f hf => (hspec f hf).1⟩, rfl⟩
  · rw [if_neg hcase, if_pos (hmiscased.mpr hcase), List.forall_mem_singleton]
    exact ⟨⟨⟨show RuleKey.settingNameNotInTitleCase ∈ _ by decide, rfl⟩, fun f hf => (hspec f hf).1⟩, rfl⟩

/-- The name of a setting is found wrong exactly if it is, and the setting is not passed over. -/
theorem inSetting_spec {s : Statement} {findings : List Finding} (h : inSetting s = .ok findings) :
    (∀ f ∈ findings, OnSetting f) ∧ RuleKey.settingNameNotInTitleCase.among findings =
      if s.IsMiscased ∧ ¬ s.kind.IsPassedOver then [nameFinding s] else [] := by
  cases hnamed : isNamedSetting s.kind with
  | true =>
    have hlooked := ((StatementKind.isNamedSetting_iff _).mp hnamed).2
    simpa only [and_iff_left hlooked] using inSetting_named hnamed h
  | false =>
    have hnot : ¬ (s.IsMiscased ∧ ¬ s.kind.IsPassedOver) := by
      rintro ⟨hmis, hlooked⟩
      exact Bool.false_ne_true (hnamed.symm.trans ((StatementKind.isNamedSetting_iff _).mpr ⟨hmis.1, hlooked⟩))
    rw [if_neg hnot]
    by_cases hheader : s.kind = .sectionHeader
    · have hspec := onSetting_header hheader h
      exact ⟨fun f hf => (hspec f hf).1, RuleKey.among_eq_nil fun f hf => (hspec f hf).2⟩
    · rw [inSetting_of_other hheader hnamed] at h
      rw [← Except.ok.inj h]
      exact ⟨List.forall_mem_nil _, rfl⟩

private theorem entry_nameFinding (s : Statement) : (nameFinding s).entry = s.nameEntry := by
  have hmessage : (nameFinding s).message = RuleKey.settingNameNotInTitleCase.template :=
    Finding.message_of_plain (f := nameFinding s) rfl rfl rfl
  rw [Finding.entry, hmessage]
  rfl

end Check.Naming

/-! ## What is reported -/

namespace Options

open Check.Naming

/-- The check of setting names goes through exactly if headers and settings have their tokens. It then
reports the settings whose names are in neither case, and that are not passed over. -/
theorem scan_settingNaming (o : Options) {host : Host} {notes : List String} {s : Setup}
    (h : o.setup host = (notes, .ok s)) (hon : s.linter.registry.enables "0306" = true)
    (memory : Memory) (subject : Subject) :
    ((∃ issues, (s.linter.withMemory memory).scan .settingNaming subject = .ok issues) ↔
        ∀ st ∈ subject.document.statements, st.IsReadable) ∧
      ∀ issues, (s.linter.withMemory memory).scan .settingNaming subject = .ok issues →
        (Issue.among [.settingNameNotInTitleCase] issues).map Issue.entry =
          (subject.document.statements.filter fun st =>
            st.IsMiscased ∧ ¬ st.kind.IsPassedOver).map Statement.nameEntry := by
  have hkey : RuleKey.settingNameNotInTitleCase ∈ Checker.settingNaming.keys := by decide
  obtain ⟨hgoes, hentries⟩ := o.scan_iff h memory hkey hon rfl fun findings hrun f hf =>
    have hf := forall_mem_gather (fun st _ here hhere => (inSetting_spec hhere).1) hrun f hf
    ⟨hf.1, hf.fills⟩
  refine ⟨hgoes.trans ?_, fun issues hissues => ?_⟩
  · refine exists_gather_iff.trans ?_
    simp only [exists_inSetting_iff]
  · obtain ⟨findings, hrun, hreported⟩ := hentries issues hissues
    have hamong := RuleKey.among_gather (fun st _ here hhere => (inSetting_spec hhere).2) hrun
    rw [hreported, hamong, flatMap_ite_singleton, List.map_map]
    exact List.map_congr_left fun st _ => entry_nameFinding st

/-- The check for setting-name-not-in-title-case (0306) goes through exactly if headers and settings have
their tokens. It then reports each setting of the tables that is not of a kind passed over and whose name is
in neither title case nor capitals, once and in order. These are all settings with such names exactly if none
of them is passed over. -/
theorem setting_names_judged_iff (o : Options) {host : Host} {notes : List String} {s : Setup}
    (h : o.setup host = (notes, .ok s)) (hon : s.linter.registry.enables "0306" = true)
    (memory : Memory) (subject : Subject) :
    ((∃ issues, (s.linter.withMemory memory).scan .settingNaming subject = .ok issues) ↔
        ∀ st ∈ subject.document.statements, st.IsReadable) ∧
      ∀ issues, (s.linter.withMemory memory).scan .settingNaming subject = .ok issues →
        (Issue.among [.settingNameNotInTitleCase] issues).map Issue.entry =
          (subject.document.statements.filter fun st =>
            st.IsMiscased ∧ ¬ st.kind.IsPassedOver).map Statement.nameEntry ∧
        ((Issue.among [.settingNameNotInTitleCase] issues).map Issue.entry =
            (subject.document.statements.filter (·.IsMiscased)).map Statement.nameEntry ↔
          ∀ st ∈ subject.document.statements, st.IsMiscased → ¬ st.kind.IsPassedOver) := by
  obtain ⟨hgoes, hreported⟩ := o.scan_settingNaming h hon memory subject
  refine ⟨hgoes, fun issues hissues => ⟨hreported issues hissues, ?_⟩⟩
  have hfilter : (subject.document.statements.filter fun st =>
      st.IsMiscased ∧ ¬ st.kind.IsPassedOver) =
        (subject.document.statements.filter (·.IsMiscased)).filter (¬ ·.kind.IsPassedOver) := by
    rw [List.filter_filter]
    apply List.filter_congr
    intro st _
    rw [Bool.decide_and, Bool.and_comm]
  rw [hreported issues hissues, hfilter,
    map_eq_iff_of_sublist List.filter_sublist, List.filter_eq_self]
  simp only [List.mem_filter, decide_eq_true_eq, and_imp]

end Options

def Subject.withSettings (rows : List (StatementKind × TokenKind × String)) : Subject :=
  ⟨"a.robot", .text [], ⟨none, [⟨.settings,
    some ⟨.sectionHeader, [⟨.settingHeader, "*** Settings ***", 1, 0⟩], []⟩,
    rows.zipIdx.map fun row => .leaf ⟨row.1.1, [⟨row.1.2.1, row.1.2.2, row.2 + 2, 0⟩], []⟩⟩]⟩⟩

def Subject.namedSettings : Subject :=
  .withSettings [(.documentation, .documentation, "Documentation"), (.suiteSetup, .suiteSetup, "Suite setup"),
    (.forceTags, .forceTags, "FORCE TAGS"), (.defaultTags, .defaultTags, "default tags"),
    (.testTemplate, .testTemplate, "Test template")]

namespace Options

theorem setting_names_judged_iff_namedSettings :
    ∃ (s : Setup) (issues : List Issue), standard.setup .plain = ([], .ok s) ∧
      s.linter.registry.enables "0306" = true ∧
      (s.linter.withMemory .blank).scan .settingNaming .namedSettings = .ok issues ∧
      (Issue.among [.settingNameNotInTitleCase] issues).map Issue.entry =
        [("0306", "Setting name should be title or upper case", 3, 1),
          ("0306", "Setting name should be title or upper case", 5, 1)] ∧
      (Issue.among [.settingNameNotInTitleCase] issues).map Issue.entry ≠
        (Subject.namedSettings.document.statements.filter (·.IsMiscased)).map Statement.nameEntry := by
  have hsetup := setup_standard .plain
  have hon := enables_standard hsetup .settingNameNotInTitleCase
  obtain ⟨hgoes, hreported⟩ := setting_names_judged_iff standard hsetup hon .blank .namedSettings
  obtain ⟨issues, hissues⟩ := hgoes.mpr (by decide +kernel)
  obtain ⟨hentries, hall⟩ := hreported issues hissues
  refine ⟨_, issues, hsetup, hon, hissues, ?_, ?_⟩
  · rw [hentries]
    decide +kernel
  · rw [ne_eq, hall]
    decide +kernel

/-- The name of a timeout in small letters is in neither case and is not reported. -/
theorem small_timeout_name_passed_over :
    ∃ (s : Setup) (issues : List Issue), standard.setup .plain = ([], .ok s) ∧
      (Subject.withSettings [(.testTimeout, .testTimeout, "test timeout")]).document.statements.filter
        (·.IsMiscased) = [⟨.testTimeout, [⟨.testTimeout, "test timeout", 2, 0⟩], []⟩] ∧
      (s.linter.withMemory .blank).scan .settingNaming
        (.withSettings [(.testTimeout, .testTimeout, "test timeout")]) = .ok issues ∧
      Issue.among [.settingNameNotInTitleCase] issues = [] := by
  have hsetup := setup_standard .plain
  have hon := enables_standard hsetup .settingNameNotInTitleCase
  obtain ⟨hgoes, hreported⟩ := standard.scan_settingNaming hsetup hon .blank
    (.withSettings [(.testTimeout, .testTimeout, "test timeout")])
  obtain ⟨issues, hissues⟩ := hgoes.mpr (by decide +kernel)
  have hentries : (Issue.among [.settingNameNotInTitleCase] issues).map Issue.entry = [] := by
    rw [hreported issues hissues]
    decide +kernel
  exact ⟨_, issues, hsetup, by decide +kernel, hissues, List.map_eq_nil_iff.mp hentries⟩

end Options

end SuiteLint
