import SuiteLint.Proofs.CountedCalls
import SuiteLint.Proofs.UnknownSettings

/-!
# Rules on whole suites

That a suite lacks documentation (0203) and that it has too many test cases (0527) is judged section by
section. So to split a section in two can bring up the first rule and silence the second.
-/

namespace SuiteLint

/-! ## Sections and what they hold -/

namespace Section

def isDocumented (s : Section) : Bool := s.body.any (·.isStatement .documentation)

def testCount (s : Section) : Nat := (s.body.filter (·.isBlock .testCase)).length

end Section

namespace Document

def settings (d : Document) : List Section := d.sections.filter (·.kind = .settings)

def testSections (d : Document) : List Section := d.sections.filter (·.kind = .testCases)

def suiteTests (d : Document) : List Node :=
  d.testSections.flatMap fun s => s.body.filter (·.isBlock .testCase)

def missingEntry (line : Int) : String × String × Int × Int :=
  ("0203", "Missing documentation in suite", anchor line, 1)

def missingEntries (d : Document) : List (String × String × Int × Int) :=
  if d.settings.isEmpty then [missingEntry 1]
  else (d.settings.filter (!·.isDocumented)).map fun s => missingEntry s.line

def crowdedEntry (limit : Int) (s : Section) : String × String × Int × Int :=
  ("0527", "Too many test cases (" ++ toString (s.testCount : Int) ++ "/" ++ toString limit ++ ")",
    anchor s.line, 1)

def crowdedEntries (d : Document) (limit : Int) : List (String × String × Int × Int) :=
  (d.testSections.filter (limit < ·.testCount)).map (crowdedEntry limit)

def NamesKeywords (d : Document) : Prop :=
  ∀ s ∈ d.sections, s.kind ≠ .settings → ∀ n ∈ s.outermost Check.Documentation.isDefinition,
    n.isBlock .testCase = true ∨ n.name?.isSome = true

instance (d : Document) : Decidable d.NamesKeywords := inferInstanceAs (Decidable (∀ s ∈ _, _))

private theorem any_settings (d : Document) :
    d.sections.any (·.kind = .settings) = !d.settings.isEmpty := by
  cases hsettings : d.settings with
  | nil => simpa [settings] using hsettings
  | cons s rest =>
    have hs : s ∈ d.settings := by simp [hsettings]
    simpa using ⟨s, by simpa [settings] using hs⟩

theorem missingEntries_ne_nil_iff (d : Document) :
    d.missingEntries ≠ [] ↔
      (∀ s ∈ d.sections, s.kind ≠ .settings) ∨
        ∃ s ∈ d.sections, s.kind = .settings ∧ s.isDocumented = false := by
  unfold missingEntries
  split
  · next hnone =>
    refine iff_of_true (List.cons_ne_nil _ _) (Or.inl ?_)
    rw [List.isEmpty_iff, settings, List.filter_eq_nil_iff] at hnone
    simpa using hnone
  · next hsome =>
    have hsome' : ¬ ∀ s ∈ d.sections, s.kind ≠ .settings := by
      rw [List.isEmpty_iff, settings, List.filter_eq_nil_iff] at hsome
      simpa using hsome
    rw [or_iff_right hsome', ne_eq, List.map_eq_nil_iff, List.filter_eq_nil_iff]
    simp [settings]

theorem crowdedEntries_ne_nil_iff (d : Document) (limit : Int) :
    d.crowdedEntries limit ≠ [] ↔
      ∃ s ∈ d.sections, s.kind = .testCases ∧ limit < s.testCount := by
  rw [crowdedEntries, ne_eq, List.map_eq_nil_iff, List.filter_eq_nil_iff]
  simp [testSections]

/-- The missing documentation is reported once at most, and exactly if no section of settings has one,
exactly if there are no two sections of settings or all of them have one. -/
theorem missingEntries_fit_iff (d : Document) :
    (d.missingEntries.length ≤ 1 ∧
        (d.missingEntries ≠ [] ↔ ∀ s ∈ d.settings, s.isDocumented = false)) ↔
      d.settings.length ≤ 1 ∨ ∀ s ∈ d.settings, s.isDocumented = true := by
  unfold missingEntries
  generalize d.settings = ss
  cases ss with
  | nil => simp
  | cons s rest =>
    simp only [List.isEmpty_cons, Bool.false_eq_true, if_false, List.length_map, ne_eq,
      List.map_eq_nil_iff]
    constructor
    · rintro ⟨hlength, hiff⟩
      by_cases hall : ∀ t ∈ s :: rest, t.isDocumented = true
      · exact Or.inr hall
      · left
        -- One without documentation is reported, so all are, and they are not two.
        have hnone : ∀ t ∈ s :: rest, t.isDocumented = false := by
          refine hiff.mp fun hnil => hall fun t ht => ?_
          simpa using List.filter_eq_nil_iff.mp hnil t ht
        rwa [List.filter_eq_self.mpr (by simpa using hnone)] at hlength
    · rintro (hone | hall)
      · obtain rfl : rest = [] := by simpa using hone
        cases hs : s.isDocumented <;> simp [hs]
      · rw [List.filter_eq_nil_iff.mpr (by simpa using hall)]
        simpa using fun hs => absurd hs (by simp [hall s])

private theorem testCount_le (d : Document) {s : Section} (h : s ∈ d.testSections) :
    s.testCount ≤ d.suiteTests.length := by
  obtain ⟨before, after, hsections⟩ := List.append_of_mem h
  rw [suiteTests, hsections, List.flatMap_append, List.flatMap_cons, List.length_append,
    List.length_append, Section.testCount]
  omega

/-- Too many test cases in all are reported as such exactly if one section alone has too many, or there are
not too many in all. -/
theorem crowdedEntries_fit_iff (d : Document) (limit : Int) :
    (d.crowdedEntries limit ≠ [] ↔ limit < d.suiteTests.length) ↔
      (limit < d.suiteTests.length → ∃ s ∈ d.testSections, limit < s.testCount) := by
  have hreported : d.crowdedEntries limit ≠ [] ↔ ∃ s ∈ d.testSections, limit < s.testCount := by
    rw [crowdedEntries_ne_nil_iff]
    simp [testSections, and_assoc]
  rw [hreported]
  refine ⟨fun hiff => hiff.mpr, fun hsome => ⟨?_, hsome⟩⟩
  rintro ⟨s, hs, hlimit⟩
  have hle := d.testCount_le hs
  omega

end Document

/-! ## A section that is split -/

/-- A section split in two of the same kind. The first one keeps the header. -/
structure Section.SplitsInto (s first second : Section) : Prop where
  kinds : first.kind = s.kind ∧ second.kind = s.kind
  body : s.body = first.body ++ second.body
  header : first.header = s.header
  newHeader : ∀ st ∈ second.header, st.kind = .sectionHeader

/-- A document and another one in which one of its sections is split in two. -/
structure Document.Split (d other : Document) where
  before : List Section
  whole : Section
  first : Section
  second : Section
  after : List Section
  sections : d.sections = before ++ whole :: after
  others : other.sections = before ++ first :: second :: after
  splits : whole.SplitsInto first second

namespace Section.SplitsInto

variable {s first second : Section} (h : s.SplitsInto first second)
include h

private theorem isDocumented_eq : s.isDocumented = (first.isDocumented || second.isDocumented) := by
  rw [isDocumented, isDocumented, isDocumented, h.body, List.any_append]

private theorem testCount_eq : s.testCount = first.testCount + second.testCount := by
  rw [testCount, testCount, testCount, h.body, List.filter_append, List.length_append]

private theorem outermost_eq (p : BlockKind → Bool) :
    s.outermost p = first.outermost p ++ second.outermost p := by
  have hbody (t : Section) :
      t.outermost p = (Node.visitedUntilAll p t.body).filter (·.isBlockWith p) := by
    rw [outermost, visitedUntil, List.filter_append]
    cases t.header <;> rfl
  rw [hbody, hbody, hbody, h.body, Node.visitedUntilAll_append, List.filter_append]

theorem statements_eq {kind : StatementKind} (hkind : kind ≠ .sectionHeader) :
    s.statements.filter (·.kind = kind) =
      first.statements.filter (·.kind = kind) ++ second.statements.filter (·.kind = kind) := by
  have hheader : (second.header.toList.filter (·.kind = kind)) = [] := by
    rw [List.filter_eq_nil_iff]
    intro st hst
    simpa [h.newHeader st (by simpa using hst)] using hkind.symm
  have hparts (t : Section) : t.statements.filter (·.kind = kind) =
      t.header.toList.filter (·.kind = kind) ++
        ((Node.visitedUntilAll (fun _ => false) t.body).filterMap Node.statement?).filter
          (·.kind = kind) := by
    rw [statements, visited, visitedUntil, List.filterMap_append, List.filter_append]
    cases t.header <;> rfl
  rw [hparts, hparts, hparts, hheader, h.header, h.body, Node.visitedUntilAll_append,
    List.filterMap_append, List.filter_append, List.nil_append, List.append_assoc]

end Section.SplitsInto

namespace Document.Split

variable {d other : Document} (p : d.Split other)

def KeepsDocumentation : Prop :=
  p.whole.kind = .settings → p.whole.isDocumented = true →
    (p.first.isDocumented = true ∧ p.second.isDocumented = true) ∨
      ∃ s ∈ p.before ++ p.after, s.kind = .settings ∧ s.isDocumented = false

def KeepsCrowd (limit : Int) : Prop :=
  p.whole.kind = .testCases → limit < p.whole.testCount →
    limit < p.first.testCount ∨ limit < p.second.testCount ∨
      ∃ s ∈ p.before ++ p.after, s.kind = .testCases ∧ limit < s.testCount

instance : Decidable p.KeepsDocumentation := inferInstanceAs (Decidable (_ → _))

instance (limit : Int) : Decidable (p.KeepsCrowd limit) := inferInstanceAs (Decidable (_ → _))

theorem exists_mem_sections_iff (q : Section → Prop) :
    (∃ s ∈ d.sections, q s) ↔ q p.whole ∨ ∃ s ∈ p.before ++ p.after, q s := by
  simp only [p.sections, List.mem_append, List.mem_cons]
  grind

theorem exists_mem_others_iff (q : Section → Prop) :
    (∃ s ∈ other.sections, q s) ↔ (q p.first ∨ q p.second) ∨ ∃ s ∈ p.before ++ p.after, q s := by
  simp only [p.others, List.mem_append, List.mem_cons]
  grind

include p

theorem missingEntries_iff :
    (other.missingEntries ≠ [] ↔ d.missingEntries ≠ []) ↔ p.KeepsDocumentation := by
  have hdocumented := p.splits.isDocumented_eq
  obtain ⟨hfirst, hsecond⟩ := p.splits.kinds
  have hnone (e : Document) : (∀ s ∈ e.sections, s.kind ≠ .settings) ↔
      ¬ ∃ s ∈ e.sections, s.kind = .settings := by simp
  rw [Document.missingEntries_ne_nil_iff, Document.missingEntries_ne_nil_iff, hnone, hnone,
    p.exists_mem_sections_iff, p.exists_mem_others_iff, p.exists_mem_sections_iff,
    p.exists_mem_others_iff, KeepsDocumentation, hfirst, hsecond]
  by_cases hkind : p.whole.kind = .settings
  · rw [hdocumented]
    cases p.first.isDocumented <;> cases p.second.isDocumented <;> simp [hkind]
  · simp [hkind]

/-- To split a section changes nothing about the number of test cases exactly if it keeps too many. -/
theorem crowdedEntries_iff (limit : Int) :
    (other.crowdedEntries limit ≠ [] ↔ d.crowdedEntries limit ≠ []) ↔ p.KeepsCrowd limit := by
  have hcount := p.splits.testCount_eq
  obtain ⟨hfirst, hsecond⟩ := p.splits.kinds
  rw [Document.crowdedEntries_ne_nil_iff, Document.crowdedEntries_ne_nil_iff, p.exists_mem_sections_iff,
    p.exists_mem_others_iff, KeepsCrowd, hfirst, hsecond]
  by_cases hkind : p.whole.kind = .testCases
  · -- A part has too many only if the whole has.
    have hpart : limit < p.first.testCount ∨ limit < p.second.testCount → limit < p.whole.testCount := by
      omega
    simp only [hkind, true_and, forall_const]
    constructor
    · exact fun hsame hwhole => or_assoc.mp (hsame.mpr (Or.inl hwhole))
    · exact fun hkeeps => ⟨Or.imp_left hpart, fun hwhole =>
        hwhole.elim (fun hwhole => or_assoc.mpr (hkeeps hwhole)) Or.inr⟩
  · simp [hkind]

private theorem namesKeywords_iff : other.NamesKeywords ↔ d.NamesKeywords := by
  have hsplit := p.splits.outermost_eq Check.Documentation.isDefinition
  obtain ⟨hfirst, hsecond⟩ := p.splits.kinds
  simp only [Document.NamesKeywords, p.sections, p.others, List.forall_mem_append, List.forall_mem_cons,
    hsplit, hfirst, hsecond, imp_and, and_assoc]

theorem isTemplated_eq : other.isTemplated = d.isTemplated := by
  have hsplit := p.splits.statements_eq (show StatementKind.testTemplate ≠ .sectionHeader by decide)
  have hstatements : other.statementsOf .testTemplate = d.statementsOf .testTemplate := by
    rw [Document.statementsOf, Document.statementsOf, Document.statements, Document.statements, p.sections,
      p.others, List.flatMap_append, List.flatMap_append, List.flatMap_cons, List.flatMap_cons,
      List.flatMap_cons]
    simp only [List.filter_append, hsplit, List.append_assoc]
  rw [Document.isTemplated, hstatements]
  rfl

end Document.Split

/-! ## What is found -/

namespace Check.Documentation

def OnDocumentation (f : Finding) : Prop := f.rule ∈ Checker.missingDocumentation.keys ∧ f.args = []

private theorem OnDocumentation.fills {f : Finding} (h : OnDocumentation f) : f.Fills := by
  refine Finding.fills_of_plain (fun key hkey => ?_) h
  simp only [Checker.keys, List.mem_cons, List.not_mem_nil, or_false] at hkey
  rcases hkey with rfl | rfl | rfl <;> exact RuleKey.places_of_template rfl rfl

theorem onDocumentation_missing {rule : RuleKey} (hrule : rule ∈ Checker.missingDocumentation.keys)
    (line : Int) (body : List Node) : ∀ f ∈ missing rule line body, OnDocumentation f := by
  unfold missing
  split
  · exact List.forall_mem_nil _
  · exact List.forall_mem_singleton.mpr ⟨hrule, rfl⟩

theorem exists_inDefinition_iff (n : Node) :
    (∃ findings, inDefinition n = .ok findings) ↔
      n.isBlock .testCase = true ∨ n.name?.isSome = true := by
  unfold inDefinition requiredName
  split
  · next htest => simp [htest]
  · next htest =>
    cases hname : n.name? with
    | none => simp [htest, bind, Except.bind]
    | some name => simp [bind, Except.bind, pure, Except.pure]

theorem inDefinition_spec {n : Node} {findings : List Finding} (h : inDefinition n = .ok findings) :
    ∀ f ∈ findings, OnDocumentation f ∧ f.rule ≠ .missingDocSuite := by
  have hmissing {rule : RuleKey} (hkey : rule ∈ Checker.missingDocumentation.keys)
      (hne : rule ≠ .missingDocSuite) :
      ∀ f ∈ missing rule n.line n.body, OnDocumentation f ∧ f.rule ≠ .missingDocSuite := by
    intro f hf
    refine ⟨onDocumentation_missing hkey _ _ f hf, ?_⟩
    unfold missing at hf
    split at hf
    · cases hf
    · rw [List.mem_singleton.mp hf]
      exact hne
  unfold inDefinition at h
  split at h
  · rw [← Except.ok.inj h]
    exact hmissing (by decide) (by decide)
  · obtain ⟨name, -, h⟩ := exists_of_bind_eq_ok h
    rw [← Except.ok.inj h]
    split
    · exact List.forall_mem_nil _
    · exact hmissing (by decide) (by decide)

theorem exists_inSection_iff (s : Section) :
    (∃ findings, inSection s = .ok findings) ↔
      (s.kind ≠ .settings → ∀ n ∈ s.outermost isDefinition,
        n.isBlock .testCase = true ∨ n.name?.isSome = true) := by
  unfold inSection
  split
  · next hkind => simp [hkind]
  · next hkind => simp only [exists_gather_iff, exists_inDefinition_iff, ne_eq, hkind, not_false_eq_true,
      forall_const]

private theorem onDocumentation_inSection {s : Section} {findings : List Finding}
    (h : inSection s = .ok findings) : ∀ f ∈ findings, OnDocumentation f := by
  unfold inSection at h
  split at h
  · rw [← Except.ok.inj h]
    exact onDocumentation_missing (by decide) _ _
  · exact forall_mem_gather (fun n _ here hhere f hf => (inDefinition_spec hhere f hf).1) h

def suiteFinding (line : Int) : Finding := found .missingDocSuite [] (anchor line) 1

theorem among_inSection {s : Section} {findings : List Finding} (h : inSection s = .ok findings) :
    RuleKey.missingDocSuite.among findings =
      if s.kind = .settings ∧ s.isDocumented = false then [suiteFinding s.line] else [] := by
  unfold inSection at h
  split at h
  · next hkind =>
    rw [← Except.ok.inj h, missing, isDocumented, ← Section.isDocumented]
    cases s.isDocumented with
    | true => simp [RuleKey.among]
    | false =>
      rw [if_neg Bool.false_ne_true, if_pos ⟨hkind, rfl⟩]
      rfl
  · next hkind =>
    rw [if_neg fun hboth => hkind hboth.1]
    exact RuleKey.among_eq_nil
      (forall_mem_gather (fun n _ here hhere f hf => (inDefinition_spec hhere f hf).2) h)

def suiteFindings (d : Document) : List Finding :=
  if d.settings.isEmpty then [suiteFinding 1]
  else (d.settings.filter (!·.isDocumented)).map fun s => suiteFinding s.line

private theorem flatMap_suiteFinding (d : Document) :
    (d.sections.flatMap fun s =>
        if s.kind = .settings ∧ s.isDocumented = false then [suiteFinding s.line] else []) =
      (d.settings.filter (!·.isDocumented)).map fun s => suiteFinding s.line := by
  rw [flatMap_ite_singleton, Document.settings, List.filter_filter]
  refine congrArg _ (List.filter_congr fun s _ => ?_)
  cases s.isDocumented <;> simp

private theorem exists_check_iff (d : Document) :
    (∃ findings, check d = .ok findings) ↔ d.NamesKeywords := by
  rw [Document.NamesKeywords, ← forall₂_congr fun s _ => exists_inSection_iff s, ← exists_gather_iff, check]
  cases gather inSection d.sections with
  | error e => simp [bind, Except.bind]
  | ok inside => simp [bind, Except.bind, pure, Except.pure]

theorem check_spec {d : Document} {findings : List Finding} (h : check d = .ok findings) :
    (∀ f ∈ findings, OnDocumentation f) ∧
      RuleKey.missingDocSuite.among findings = suiteFindings d := by
  obtain ⟨inside, hinside, h⟩ := exists_of_bind_eq_ok h
  have hall : ∀ f ∈ inside, OnDocumentation f :=
    forall_mem_gather (fun s _ here hhere => onDocumentation_inSection hhere) hinside
  have hamong := RuleKey.among_gather (fun s _ here => among_inSection) hinside
  rw [← Except.ok.inj h]
  constructor
  · rw [List.forall_mem_append]
    refine ⟨?_, hall⟩
    split
    · exact List.forall_mem_nil _
    · exact List.forall_mem_singleton.mpr ⟨by decide, rfl⟩
  · rw [RuleKey.among_append, hamong, flatMap_suiteFinding, suiteFindings, Document.any_settings]
    cases d.settings with
    | nil => rfl
    | cons s rest => rfl

theorem entries_suiteFindings (d : Document) : (suiteFindings d).map Finding.entry = d.missingEntries := by
  have hentry (line : Int) : (suiteFinding line).entry = Document.missingEntry line := by
    have htext : (suiteFinding line).message = (Document.missingEntry line).2.1 :=
      Finding.message_of_plain (f := suiteFinding line) rfl (by decide) rfl
    rw [Finding.entry, htext]
    rfl
  rw [suiteFindings, Document.missingEntries]
  split
  · rw [List.map_singleton, hentry]
  · rw [List.map_map]
    exact List.map_congr_left fun s _ => hentry s.line

end Check.Documentation

def Linter.testLimit (l : Linter) (templated : Bool) : Int :=
  l.bound .tooManyTestCases (if templated then "max_templated_testcases" else "max_testcases")

namespace Check.Length

private theorem fills_tooManyTestCases {f : Finding} (hrule : f.rule = .tooManyTestCases) {count limit : Int}
    (hargs : f.args = [.integer count, .integer limit]) :
    f.Fills ∧ f.message = "Too many test cases (" ++ toString count ++ "/" ++ toString limit ++ ")" := by
  simp only [String.append_assoc]
  exact Finding.fills_of_wording (.plain rfl rfl (.number rfl (.plain rfl rfl
    (.number rfl (.last rfl rfl))))) (hrule ▸ rfl) hargs

def crowdFinding (limit : Int) (s : Section) : Finding :=
  found .tooManyTestCases [.integer s.testCount, .integer limit] (anchor s.line) 1

private theorem checkTestCases_eq (l : Linter) (templated : Bool) (d : Document) :
    checkTestCases (l.valuesFor .tooManyTestCases) templated d =
      (d.testSections.filter (l.testLimit templated < ·.testCount)).map
        (crowdFinding (l.testLimit templated)) :=
  flatMap_ite_singleton (fun s : Section => l.testLimit templated < s.testCount) _ _

private theorem entry_crowdFinding (limit : Int) (s : Section) :
    (crowdFinding limit s).Fills ∧ (crowdFinding limit s).entry = Document.crowdedEntry limit s := by
  obtain ⟨hfills, hmessage⟩ := fills_tooManyTestCases (f := crowdFinding limit s) rfl rfl
  refine ⟨hfills, ?_⟩
  rw [Finding.entry, hmessage]
  rfl

end Check.Length

/-! ## What is reported -/

namespace Options

open Check

section

variable (o : Options) {host : Host} {notes : List String} {s : Setup}
  (h : o.setup host = (notes, .ok s)) (memory : Memory)
include h

/-- The check of documentation goes through exactly if the keywords have names. Then it reports the sections
of settings that lack one, or the suite if it has none. -/
theorem scan_missingDocumentation (hon : s.linter.registry.enables "0203" = true) (subject : Subject) :
    ((∃ issues, (s.linter.withMemory memory).scan .missingDocumentation subject = .ok issues) ↔
        subject.document.NamesKeywords) ∧
      ∀ issues, (s.linter.withMemory memory).scan .missingDocumentation subject = .ok issues →
        (Issue.among [.missingDocSuite] issues).map Issue.entry = subject.document.missingEntries := by
  have hkey : RuleKey.missingDocSuite ∈ Checker.missingDocumentation.keys := by decide
  obtain ⟨hgoes, hentries⟩ := o.scan_iff h memory hkey hon rfl fun findings hrun f hf =>
    ⟨((Documentation.check_spec hrun).1 f hf).1, ((Documentation.check_spec hrun).1 f hf).fills⟩
  refine ⟨hgoes.trans (Documentation.exists_check_iff _), fun issues hissues => ?_⟩
  obtain ⟨findings, hrun, hreported⟩ := hentries issues hissues
  rw [hreported, (Documentation.check_spec hrun).2, Documentation.entries_suiteFindings]

/-- The check of the number of test cases reports the sections with too many. -/
theorem scan_testCaseNumber (hon : s.linter.registry.enables "0527" = true) (subject : Subject) :
    ∃ issues, (s.linter.withMemory memory).scan .testCaseNumber subject = .ok issues ∧
      (Issue.among [.tooManyTestCases] issues).map Issue.entry =
        subject.document.crowdedEntries (s.linter.testLimit subject.document.isTemplated) := by
  have hkey : RuleKey.tooManyTestCases ∈ Checker.testCaseNumber.keys := by decide
  have hfound := Length.checkTestCases_eq s.linter subject.document.isTemplated subject.document
  have hall : ∀ f ∈ Length.checkTestCases (s.linter.valuesFor .tooManyTestCases)
      subject.document.isTemplated subject.document, f.rule = .tooManyTestCases ∧ f.Fills := by
    rw [hfound]
    intro f hf
    obtain ⟨part, -, rfl⟩ := List.mem_map.mp hf
    exact ⟨rfl, (Length.entry_crowdFinding _ part).1⟩
  obtain ⟨issues, hissues, hentries⟩ := o.scan_only h memory hkey hon rfl fun f hf =>
    ⟨(hall f hf).1 ▸ hkey, (hall f hf).2⟩
  refine ⟨issues, hissues, hentries.trans ?_⟩
  rw [show RuleKey.tooManyTestCases.among _ = _ from
    List.filter_eq_self.mpr fun f hf => by simpa using (hall f hf).1]
  refine (congrArg (List.map _) hfound).trans ?_
  rw [List.map_map]
  exact List.map_congr_left fun part _ => (Length.entry_crowdFinding _ part).2

end

/-- Missing-doc-suite (0203) and too-many-test-cases (0527) are judged section by section. The missing
documentation is reported once at most, and exactly if no section of settings has one, exactly if there are no
two such sections or all of them have one. Too many test cases in all are reported exactly if one section has
too many. To split a section makes no difference exactly if both parts keep a documentation, and one of them
too many test cases, or another section is reported anyway. -/
theorem suite_rules_by_section_iff (o : Options) {host : Host} {notes : List String} {s : Setup}
    (h : o.setup host = (notes, .ok s)) (hdoc : s.linter.registry.enables "0203" = true)
    (hcount : s.linter.registry.enables "0527" = true) (memory : Memory) (subject : Subject) :
    ((∃ issues, (s.linter.withMemory memory).scan .missingDocumentation subject = .ok issues) ↔
        subject.document.NamesKeywords) ∧
      (∀ issues, (s.linter.withMemory memory).scan .missingDocumentation subject = .ok issues →
        (Issue.among [.missingDocSuite] issues).map Issue.entry = subject.document.missingEntries ∧
        (((Issue.among [.missingDocSuite] issues).length ≤ 1 ∧
            (Issue.among [.missingDocSuite] issues ≠ [] ↔
              ∀ part ∈ subject.document.settings, part.isDocumented = false)) ↔
          subject.document.settings.length ≤ 1 ∨
            ∀ part ∈ subject.document.settings, part.isDocumented = true) ∧
        ∀ (other : Subject) (p : subject.document.Split other.document), ∃ others,
          (s.linter.withMemory memory).scan .missingDocumentation other = .ok others ∧
          ((Issue.among [.missingDocSuite] others ≠ [] ↔ Issue.among [.missingDocSuite] issues ≠ []) ↔
            p.KeepsDocumentation)) ∧
      ∃ issues, (s.linter.withMemory memory).scan .testCaseNumber subject = .ok issues ∧
        (Issue.among [.tooManyTestCases] issues).map Issue.entry =
          subject.document.crowdedEntries (s.linter.testLimit subject.document.isTemplated) ∧
        ((Issue.among [.tooManyTestCases] issues ≠ [] ↔
            s.linter.testLimit subject.document.isTemplated < subject.document.suiteTests.length) ↔
          (s.linter.testLimit subject.document.isTemplated < subject.document.suiteTests.length →
            ∃ part ∈ subject.document.testSections,
              s.linter.testLimit subject.document.isTemplated < part.testCount)) ∧
        ∀ (other : Subject) (p : subject.document.Split other.document), ∃ others,
          (s.linter.withMemory memory).scan .testCaseNumber other = .ok others ∧
          ((Issue.among [.tooManyTestCases] others ≠ [] ↔ Issue.among [.tooManyTestCases] issues ≠ []) ↔
            p.KeepsCrowd (s.linter.testLimit subject.document.isTemplated)) := by
  have hnil {key : RuleKey} {issues : List Issue} {entries : List (String × String × Int × Int)}
      (heq : (Issue.among [key] issues).map Issue.entry = entries) :
      Issue.among [key] issues ≠ [] ↔ entries ≠ [] := by
    rw [← heq, ne_eq, ne_eq, List.map_eq_nil_iff]
  obtain ⟨hgoes, hmissing⟩ := o.scan_missingDocumentation h memory hdoc subject
  obtain ⟨issues, hissues, hcrowded⟩ := o.scan_testCaseNumber h memory hcount subject
  refine ⟨hgoes, fun issues hissues => ?_, issues, hissues, hcrowded, ?_, fun other p => ?_⟩
  · have hentries := hmissing issues hissues
    refine ⟨hentries, ?_, fun other p => ?_⟩
    · rw [hnil hentries, ← List.length_map (f := Issue.entry), hentries]
      exact subject.document.missingEntries_fit_iff
    · obtain ⟨hgoes', hmissing'⟩ := o.scan_missingDocumentation h memory hdoc other
      obtain ⟨others, hothers⟩ := hgoes'.mpr (p.namesKeywords_iff.mpr (hgoes.mp ⟨issues, hissues⟩))
      refine ⟨others, hothers, ?_⟩
      rw [hnil hentries, hnil (hmissing' others hothers)]
      exact p.missingEntries_iff
  · rw [hnil hcrowded]
    exact subject.document.crowdedEntries_fit_iff _
  · obtain ⟨others, hothers, hcrowded'⟩ := o.scan_testCaseNumber h memory hcount other
    refine ⟨others, hothers, ?_⟩
    rw [p.isTemplated_eq] at hcrowded'
    rw [hnil hcrowded, hnil hcrowded']
    exact p.crowdedEntries_iff _

end Options

def Section.titled (kind : SectionKind) (mark : TokenKind) (title : String) (line : Int)
    (rows : List Node) : Section :=
  ⟨kind, some ⟨.sectionHeader, [⟨mark, title, line, 0⟩], []⟩, rows⟩

def Section.settingsOn (line : Int) (rows : List Node) : Section :=
  .titled .settings .settingHeader "*** Settings ***" line rows

def Section.testsOn (line : Int) (count : Nat) : Section :=
  .titled .testCases .testCaseHeader "*** Test Cases ***" line (List.replicate count
    (.block .testCase ⟨.testCaseName, [⟨.testCaseName, "Test", line + 1, 0⟩], []⟩ [] none none []))

def Node.documentationOn (line : Int) : Node :=
  .leaf ⟨.documentation, [⟨.documentation, "Documentation", line, 0⟩, ⟨.argument, "Text", line, 17⟩], []⟩

def Node.timeoutOn (line : Int) : Node :=
  .leaf ⟨.testTimeout, [⟨.testTimeout, "Test Timeout", line, 0⟩, ⟨.argument, "1 min", line, 16⟩], []⟩

def Subject.wholeSuite : Subject :=
  ⟨"a.robot", .text [], ⟨none, [.settingsOn 1 [.documentationOn 2, .timeoutOn 4], .testsOn 5 51]⟩⟩

def Subject.settingsApart : Subject :=
  ⟨"a.robot", .text [],
    ⟨none, [.settingsOn 1 [.documentationOn 2], .settingsOn 3 [.timeoutOn 4], .testsOn 5 51]⟩⟩

def Subject.testsApart : Subject :=
  ⟨"a.robot", .text [], ⟨none, [.settingsOn 1 [.documentationOn 2], .settingsOn 3 [.timeoutOn 4],
    .testsOn 5 25, .testsOn 7 26]⟩⟩

/-- The settings of the suite are split behind the documentation, at an empty line. -/
def Subject.wholeSuiteSplit : wholeSuite.document.Split settingsApart.document where
  before := []
  whole := .settingsOn 1 [.documentationOn 2, .timeoutOn 4]
  first := .settingsOn 1 [.documentationOn 2]
  second := .settingsOn 3 [.timeoutOn 4]
  after := [.testsOn 5 51]
  sections := rfl
  others := rfl
  splits := ⟨⟨rfl, rfl⟩, rfl, rfl, by decide⟩

theorem Linter.testLimit_standard :
    testLimit ⟨.plain, .tuned .plain Options.standard.selection.picks .start, .blank⟩ false = 50 := by
  rw [testLimit, bound, valuesFor_tuned .plain _ _ _ (show _ ∈ Checker.testCaseNumber.keys by decide)]
  rfl

namespace Options

theorem suite_rules_by_section_iff_wholeSuite :
    ∃ (s : Setup) (issues others counts : List Issue), standard.setup .plain = ([], .ok s) ∧
      s.linter.registry.enables "0203" = true ∧ s.linter.registry.enables "0527" = true ∧
      s.linter.scan .missingDocumentation .wholeSuite = .ok issues ∧
      Issue.among [.missingDocSuite] issues = [] ∧
      s.linter.scan .missingDocumentation .settingsApart = .ok others ∧
      Issue.among [.missingDocSuite] others ≠ [] ∧
      s.linter.scan .testCaseNumber .wholeSuite = .ok counts ∧
      (Issue.among [.tooManyTestCases] counts).map Issue.entry =
        [("0527", "Too many test cases (51/50)", 5, 1)] := by
  have hsetup := setup_standard .plain
  have hdoc := enables_standard hsetup .missingDocSuite
  have hcount := enables_standard hsetup .tooManyTestCases
  obtain ⟨hgoes, hmissing, counts, hcounts, hcrowded, -⟩ :=
    suite_rules_by_section_iff standard hsetup hdoc hcount .blank .wholeSuite
  obtain ⟨issues, hissues⟩ := hgoes.mpr (by decide +kernel)
  obtain ⟨hentries, -, hsplit⟩ := hmissing issues hissues
  obtain ⟨others, hothers, hsame⟩ := hsplit .settingsApart Subject.wholeSuiteSplit
  have hnone : Issue.among [.missingDocSuite] issues = [] := by
    rw [← List.map_eq_nil_iff (f := Issue.entry), hentries]
    decide +kernel
  refine ⟨_, issues, others, counts, hsetup, hdoc, hcount, hissues, hnone, hothers, fun hnone' => ?_,
    hcounts, ?_⟩
  · have hlost : ¬ Subject.wholeSuiteSplit.KeepsDocumentation := by decide +kernel
    exact hlost (hsame.mp (iff_of_false (not_not.mpr hnone') (not_not.mpr hnone)))
  · have htemplated : Subject.wholeSuite.document.isTemplated = false := by decide +kernel
    rw [hcrowded, htemplated, Linter.testLimit_standard]
    decide +kernel

/-- With its sections split, a suite with documentation is said to have none, and one with too many test cases
is not reported. -/
theorem split_suite_judged_by_parts :
    ∃ (s : Setup) (issues counts : List Issue), standard.setup .plain = ([], .ok s) ∧
      s.linter.registry.enables "0203" = true ∧ s.linter.registry.enables "0527" = true ∧
      (∃ part ∈ Subject.testsApart.document.settings, part.isDocumented = true) ∧
      s.linter.scan .missingDocumentation .testsApart = .ok issues ∧
      (Issue.among [.missingDocSuite] issues).map Issue.entry =
        [("0203", "Missing documentation in suite", 3, 1)] ∧
      s.linter.testLimit Subject.testsApart.document.isTemplated <
        Subject.testsApart.document.suiteTests.length ∧
      s.linter.scan .testCaseNumber .testsApart = .ok counts ∧
      Issue.among [.tooManyTestCases] counts = [] := by
  have hsetup := setup_standard .plain
  have hdoc := enables_standard hsetup .missingDocSuite
  have hcount := enables_standard hsetup .tooManyTestCases
  obtain ⟨hgoes, hmissing⟩ := standard.scan_missingDocumentation hsetup .blank hdoc .testsApart
  obtain ⟨issues, hissues⟩ := hgoes.mpr (by decide +kernel)
  obtain ⟨counts, hcounts, hcrowded⟩ := standard.scan_testCaseNumber hsetup .blank hcount .testsApart
  have htemplated : Subject.testsApart.document.isTemplated = false := by decide +kernel
  refine ⟨_, issues, counts, hsetup, hdoc, hcount, by decide +kernel, hissues, ?_, ?_, hcounts, ?_⟩
  · rw [hmissing issues hissues]
    decide +kernel
  · rw [htemplated, Linter.testLimit_standard]
    decide +kernel
  · rw [← List.map_eq_nil_iff (f := Issue.entry), hcrowded, htemplated, Linter.testLimit_standard]
    decide +kernel

end Options

end SuiteLint
