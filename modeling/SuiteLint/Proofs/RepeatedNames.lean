import SuiteLint.Proofs.RepeatGroups
import SuiteLint.Proofs.RepeatedTargets

/-!
# Names that are declared twice

Declarations are put into groups by what they are compared by, and of each group all but the first are
reported. For test cases, keywords, variables and resources that is a form of the name.
-/

namespace SuiteLint

theorem laterRepeats_congr {α : Type} {like like' : α → α → Bool} {before xs : List α}
    (h : ∀ front x back, xs = front ++ x :: back →
      (before ++ front).find? (like · x) = (before ++ front).find? (like' · x)) :
    laterRepeats like before xs = laterRepeats like' before xs := by
  induction xs generalizing before with
  | nil => rfl
  | cons x xs ih =>
    rw [forall_split_cons, List.append_nil] at h
    have hrest : laterRepeats like (before ++ [x]) xs = laterRepeats like' (before ++ [x]) xs := by
      refine ih fun front y back hxs => ?_
      simpa using h.2 front y back hxs
    rw [laterRepeats, laterRepeats, h.1, hrest]

/-! ## Declarations -/

/-- Something that a suite declares: its name, its line, and the texts that it is compared by. -/
structure Declaration where
  name : Option String
  line : Int
  parts : List String

namespace Declaration

def ofBlock (n : Node) : Declaration := ⟨n.name?, n.line, [Name.normalized (n.name?.getD "")]⟩

def ofStatement (parts : Statement → List String) (s : Statement) : Declaration :=
  ⟨s.name?, s.line, parts s⟩

def joined (x : Declaration) : String := String.join x.parts

def sameParts (u x : Declaration) : Bool := u.parts = x.parts

def sameJoined (u x : Declaration) : Bool := u.joined = x.joined

end Declaration

namespace Statement

def nameParts (s : Statement) : List String := [s.name?.getD ""]

def variableParts (s : Statement) : List String :=
  [Name.normalized (Name.withoutChars (s.name?.getD "") ['$', '{', '}', '@', '&'])]

def importParts (s : Statement) : List String :=
  s.name?.getD "" :: (s.dataTokens.drop 2).map (·.value)

def metadataParts (s : Statement) : List String := [s.name?.getD "", s.longText?.getD ""]

end Statement

/-- What is said of a repeated declaration before its name, before the line of the first one, and at
the end. -/
structure RepeatWording where
  opening : String
  middle : String
  closing : String

/-- The kinds of declarations that should not be repeated. -/
inductive DeclarationKind where
  | testCase | keyword | variableRow | resource | library | metadata | variablesImport
  deriving DecidableEq

namespace DeclarationKind

open Check.Duplicate

def all : List DeclarationKind :=
  [testCase, keyword, variableRow, resource, library, metadata, variablesImport]

def rule : DeclarationKind → RuleKey
  | testCase => .duplicatedTestCase
  | keyword => .duplicatedKeyword
  | variableRow => .duplicatedVariable
  | resource => .duplicatedResource
  | library => .duplicatedLibrary
  | metadata => .duplicatedMetadata
  | variablesImport => .duplicatedVariablesImport

def wording : DeclarationKind → RepeatWording
  | testCase => ⟨"Multiple test cases with name \"", "\" (first occurrence in line ", ")"⟩
  | keyword => ⟨"Multiple keywords with name \"", "\" (first occurrence in line ", ")"⟩
  | variableRow =>
    ⟨"Multiple variables with name \"", "\" in Variables section (first occurrence in line ",
      "). Note that Robot Framework is case-insensitive"⟩
  | resource => ⟨"Multiple resource imports with path \"", "\" (first occurrence in line ", ")"⟩
  | library =>
    ⟨"Multiple library imports with name \"", "\" and identical arguments (first occurrence in line ",
      ")"⟩
  | metadata => ⟨"Duplicated metadata \"", "\" (first occurrence in line ", ")"⟩
  | variablesImport =>
    ⟨"Duplicated variables import with path \"", "\" (first occurrence in line ", ")"⟩

/-- The declarations of a kind in the order of visiting. Variables need a name and no fault, imports a
name, and imports of variables also no arguments that they cannot take. -/
def declarations (modern : Bool) (d : Document) : DeclarationKind → List Declaration
  | testCase => (d.blocksOf .testCase).map .ofBlock
  | keyword => (d.blocksOf .keyword).map .ofBlock
  | variableRow => ((d.statementsOf .variableRow).filter fun s => hasName s && !isFaulty modern s).map
      (.ofStatement Statement.variableParts)
  | resource => ((d.statementsOf .resourceImport).filter hasName).map (.ofStatement Statement.nameParts)
  | library => ((d.statementsOf .libraryImport).filter hasName).map (.ofStatement Statement.importParts)
  | metadata =>
    ((d.statementsOf .metadata).filter (·.name?.isSome)).map (.ofStatement Statement.metadataParts)
  | variablesImport => ((d.statementsOf .variablesImport).filter isPlainVariablesImport).map
      (.ofStatement Statement.importParts)

/-- What is reported of a declaration and the first one like it. -/
def entry (kind : DeclarationKind) (pair : Declaration × Declaration) : String × String × Int × Int :=
  (kind.rule.id, kind.wording.opening ++ pair.2.name.getD "None" ++ kind.wording.middle ++
    toString pair.1.line ++ kind.wording.closing, anchor pair.2.line, 1)

def repeatEntries (like : Declaration → Declaration → Bool) (modern : Bool) (d : Document)
    (kind : DeclarationKind) : List (String × String × Int × Int) :=
  (laterRepeats like [] (kind.declarations modern d)).map kind.entry

/-! ## What is found -/

def findings (modern : Bool) (d : Document) (kind : DeclarationKind) : List Finding :=
  report kind.rule (fun x => nameDatum x.name) Declaration.line
    (repeats Declaration.joined (kind.declarations modern d))

theorem rule_mem (kind : DeclarationKind) : kind.rule ∈ Checker.duplications.keys.take 7 := by
  cases kind <;> decide

private theorem rule_inj {kind other : DeclarationKind} (h : kind.rule = other.rule) : kind = other := by
  cases kind <;> cases other <;> cases h <;> rfl

private theorem template_eq (kind : DeclarationKind) :
    kind.rule.template = kind.wording.opening ++ "%s" ++ kind.wording.middle ++ "%d" ++
      kind.wording.closing := by
  cases kind <;> decide +kernel

private theorem wording_sound (kind : DeclarationKind) : kind.wording.opening.toList.contains '%' = false ∧
    kind.wording.middle.toList.contains '%' = false ∧ kind.wording.closing.toList.contains '%' = false := by
  cases kind <;> decide +kernel

theorem entry_found (kind : DeclarationKind) (first again : Declaration) :
    (found kind.rule [nameDatum again.name, .integer first.line] (anchor again.line) 1).entry =
      kind.entry (first, again) := by
  obtain ⟨hopening, hmiddle, hclosing⟩ := kind.wording_sound
  have hwording : Text.Wording _ [nameDatum again.name, .integer first.line]
      (kind.wording.opening ++ ((nameDatum again.name).text ++ (kind.wording.middle ++
        (toString first.line ++ kind.wording.closing)))) :=
    .plain String.ofList_toList.symm hopening (.text (.plain String.ofList_toList.symm hmiddle
      (.number rfl (.last String.ofList_toList.symm hclosing))))
  have htemplate : kind.rule.template = String.ofList (kind.wording.opening.toList ++ '%' :: 's' ::
      (kind.wording.middle.toList ++ '%' :: 'd' :: kind.wording.closing.toList)) := by
    rw [← String.toList_inj, kind.template_eq]
    simp
  have hname : (nameDatum again.name).text = again.name.getD "None" := by
    cases again.name <;> rfl
  rw [Finding.entry, Finding.message_of_wording hwording htemplate rfl, hname, entry]
  simp only [String.append_assoc]
  rfl

theorem entries_findings (modern : Bool) (d : Document) (kind : DeclarationKind) :
    ((kind.findings modern d).map Finding.entry).Perm
      (kind.repeatEntries Declaration.sameJoined modern d) := by
  have hentries : (kind.findings modern d).map Finding.entry =
      (repeats Declaration.joined (kind.declarations modern d)).map kind.entry := by
    rw [findings, report, List.map_map]
    apply List.map_congr_left
    intro pair _
    exact kind.entry_found pair.1 pair.2
  rw [hentries]
  exact (repeats_perm _ _).map _

end DeclarationKind

namespace Check.Duplicate

theorem report_repeats {α : Type} {key : α → String} {f : α → Declaration}
    (h : ∀ x, key x = (f x).joined) (rule : RuleKey) (xs : List α) :
    report rule (fun x => nameDatum (f x).name) (fun x => (f x).line) (repeats key xs) =
      report rule (fun x => nameDatum x.name) Declaration.line
        (repeats Declaration.joined (xs.map f)) := by
  rw [repeats_map, report, report, List.map_map]
  simp only [← h]
  rfl

private theorem definitions_eq (rule : RuleKey) (kind : BlockKind) (d : Document) :
    definitions rule kind d = report rule (fun x => nameDatum x.name) Declaration.line
      (repeats Declaration.joined ((d.blocksOf kind).map .ofBlock)) :=
  report_repeats (f := Declaration.ofBlock) (fun n => by simp [Declaration.ofBlock, Declaration.joined])
    rule _

private theorem statements_eq {key : Statement → String} {parts : Statement → List String}
    (h : ∀ s, key s = String.join (parts s)) (rule : RuleKey) (ss : List Statement) :
    statements rule key ss = report rule (fun x => nameDatum x.name) Declaration.line
      (repeats Declaration.joined (ss.map (.ofStatement parts))) :=
  report_repeats (f := Declaration.ofStatement parts) h rule ss

theorem check_eq_findings (modern : Bool) {d : Document} (h : IsReadable d) :
    check modern d = .ok (d.statements.flatMap inStatement ++
      DeclarationKind.all.flatMap (·.findings modern d)) := by
  have hvariable : ∀ s, variableKey s = String.join s.variableParts := by
    simp [variableKey, Statement.variableParts]
  have hname : ∀ s : Statement, s.name?.getD "" = String.join s.nameParts := by
    simp [Statement.nameParts]
  have himport : ∀ s, importKey s = String.join s.importParts := by
    simp [importKey, Statement.importParts, String.join_cons]
  have hmetadata : ∀ s, metadataKey s = String.join s.metadataParts := by
    simp [metadataKey, Statement.metadataParts, String.join_cons]
  simp only [check, isReadable_iff.mp h, Bool.false_eq_true, if_false, List.append_assoc,
    definitions_eq, statements_eq hvariable, statements_eq hname, statements_eq himport,
    statements_eq hmetadata]
  simp only [DeclarationKind.all, List.flatMap_cons, List.flatMap_nil, List.append_nil]
  rfl

theorem check_of_not_isReadable (modern : Bool) {d : Document} (h : ¬ IsReadable d) :
    check modern d = .error .absentPart := by
  rw [isReadable_iff, Bool.not_eq_false] at h
  simp only [check, h, if_true]

/-- Under the rule of a kind nothing else is found than for this kind. -/
theorem among_findings (modern : Bool) (d : Document) (kind : DeclarationKind) :
    kind.rule.among (d.statements.flatMap inStatement ++
      DeclarationKind.all.flatMap (·.findings modern d)) = kind.findings modern d := by
  have hinside : kind.rule.among (d.statements.flatMap inStatement) = [] := by
    refine RuleKey.among_eq_nil fun f hf hrule => ?_
    obtain ⟨s, -, hs⟩ := List.mem_flatMap.mp hf
    have hkey := (names_inStatement hs).1
    rw [hrule] at hkey
    revert hkey
    cases kind <;> decide
  have hmember (other : DeclarationKind) : kind.rule.among (other.findings modern d) =
      if other = kind then other.findings modern d else [] := by
    have hrule : ∀ f ∈ other.findings modern d, f.rule = other.rule := by
      intro f hf
      obtain ⟨pair, -, rfl⟩ := List.mem_map.mp hf
      rfl
    split
    · next heq =>
      rw [RuleKey.among, List.filter_eq_self]
      intro f hf
      rw [hrule f hf, heq]
      exact decide_eq_true rfl
    · next hne =>
      refine RuleKey.among_eq_nil fun f hf heq => ?_
      exact hne (DeclarationKind.rule_inj ((hrule f hf).symm.trans heq))
  have hkinds : kind.rule.among (DeclarationKind.all.flatMap (·.findings modern d)) =
      DeclarationKind.all.flatMap fun other => kind.rule.among (other.findings modern d) :=
    List.filter_flatMap
  rw [RuleKey.among_append, hinside, List.nil_append, hkinds]
  simp only [hmember]
  cases kind <;> simp [DeclarationKind.all]

theorem fills_findings (modern : Bool) (d : Document) :
    ∀ f ∈ d.statements.flatMap inStatement ++ DeclarationKind.all.flatMap (·.findings modern d),
      f.rule ∈ Checker.duplications.keys ∧ f.Fills := by
  intro f hf
  rcases List.mem_append.mp hf with hf | hf
  · obtain ⟨s, -, hs⟩ := List.mem_flatMap.mp hf
    exact fills_inStatement hs
  · obtain ⟨kind, -, hkind⟩ := List.mem_flatMap.mp hf
    exact (namesFirst_report kind.rule_mem _ _ _ f hkind).fills

end Check.Duplicate

/-! ## What is reported -/

namespace Options

open Check.Duplicate

variable (o : Options) {host : Host} {notes : List String} {s : Setup}
  (h : o.setup host = (notes, .ok s)) (memory : Memory) (subject : Subject)

include h

theorem scan_duplications_iff :
    (∃ issues, (s.linter.withMemory memory).scan .duplications subject = .ok issues) ↔
      IsReadable subject.document := by
  have hkey : RuleKey.duplicatedTestCase ∈ Checker.duplications.keys := by decide
  by_cases hread : IsReadable subject.document
  · obtain ⟨issues, hissues, -⟩ := o.scan_each h memory hkey (check_eq_findings host.modern hread)
      (fills_findings host.modern subject.document)
    exact ⟨fun _ => hread, fun _ => ⟨issues, hissues⟩⟩
  · have hbroken : (s.linter.withMemory memory).scan .duplications subject =
        .error (.brokenCheck .absentPart) :=
      o.scan_broken h memory hkey (check_of_not_isReadable host.modern hread)
    rw [hbroken]
    simp [hread]

/-- Where the rule on a kind is on, the declarations are reported that are joined like an earlier
one. -/
theorem scan_duplications {issues : List Issue}
    (hissues : (s.linter.withMemory memory).scan .duplications subject = .ok issues)
    {kind : DeclarationKind} (hon : s.linter.registry.enables kind.rule.id = true) :
    ((Issue.among [kind.rule] issues).map Issue.entry).Perm
      (kind.repeatEntries Declaration.sameJoined host.modern subject.document) := by
  have hkey := List.mem_of_mem_take kind.rule_mem
  have hread := (o.scan_duplications_iff h memory subject).mp ⟨issues, hissues⟩
  obtain ⟨issues', hissues', hentries⟩ := o.scan_each h memory hkey
    (check_eq_findings host.modern hread) (fills_findings host.modern subject.document)
  obtain rfl := Except.ok.inj (hissues.symm.trans hissues')
  rw [hentries kind.rule hkey hon, among_findings]
  exact kind.entries_findings host.modern subject.document

end Options

/-- A declaration that is compared by one text is joined like another one exactly if its parts are the
same. -/
theorem DeclarationKind.repeatEntries_of_single {kind : DeclarationKind} {modern : Bool} {d : Document}
    (h : ∀ x ∈ kind.declarations modern d, ∃ text, x.parts = [text]) :
    kind.repeatEntries Declaration.sameJoined modern d =
      kind.repeatEntries Declaration.sameParts modern d := by
  rw [repeatEntries, repeatEntries, laterRepeats_congr]
  intro front x back hsplit
  rw [hsplit] at h
  obtain ⟨text, htext⟩ := h x (by simp)
  rw [← List.head?_filter, ← List.head?_filter]
  congr 1
  apply List.filter_congr
  intro u hu
  obtain ⟨text', htext'⟩ := h u (by simpa using Or.inl hu)
  simp [Declaration.sameJoined, Declaration.sameParts, Declaration.joined, htext, htext']

namespace Options

open Check.Duplicate

/-- The declarations of a document can be compared exactly if its variables have names and its metadata
values. Then each test case (0801), keyword (0802), variable (0803) and resource (0804) whose form of the name
an earlier one has is reported once, with its name and the line of the first of those, and nothing else is
under these rules. -/
theorem repeated_names_reported (o : Options) {host : Host} {notes : List String} {s : Setup}
    (h : o.setup host = (notes, .ok s)) (memory : Memory) (subject : Subject) :
    ((∃ issues, (s.linter.withMemory memory).scan .duplications subject = .ok issues) ↔
        IsReadable subject.document) ∧
      ∀ issues, (s.linter.withMemory memory).scan .duplications subject = .ok issues →
        ∀ kind ∈ [DeclarationKind.testCase, .keyword, .variableRow, .resource],
          s.linter.registry.enables kind.rule.id = true →
            ((Issue.among [kind.rule] issues).map Issue.entry).Perm
              (kind.repeatEntries Declaration.sameParts host.modern subject.document) := by
  refine ⟨o.scan_duplications_iff h memory subject, fun issues hissues kind hkind hon => ?_⟩
  rw [← DeclarationKind.repeatEntries_of_single]
  · exact o.scan_duplications h memory subject hissues hon
  · intro x hx
    simp only [List.mem_cons, List.not_mem_nil, or_false] at hkind
    rcases hkind with rfl | rfl | rfl | rfl
    all_goals
      obtain ⟨thing, -, rfl⟩ := List.mem_map.mp hx
      exact ⟨_, rfl⟩

end Options

def Node.bare (kind : BlockKind) (header : StatementKind) (mark : TokenKind) (name : String)
    (line : Int) : Node :=
  .block kind ⟨header, [⟨mark, name, line, 0⟩], []⟩ [] none none []

def Statement.setting (kind : StatementKind) (mark : TokenKind) (line : Int) (name : String)
    (values : List String) : Statement :=
  ⟨kind, ⟨mark, "", line, 0⟩ :: ⟨.name, name, line, 14⟩ ::
    values.map (⟨.argument, ·, line, 30⟩), []⟩

def Statement.variableRow (line : Int) (value : String) (errors : List String) : Statement :=
  ⟨.variableRow, [⟨.variableName, value, line, 0⟩], errors⟩

/-- Names of all kinds that occur more than once, with others between them. -/
def Subject.repeatedNames : Subject :=
  ⟨"a.robot", .text [], ⟨none, [
    ⟨.settings, none,
      [.leaf (.setting .resourceImport .resource 2 "a.resource" []),
        .leaf (.setting .resourceImport .resource 3 "A.resource" []),
        .leaf (.setting .resourceImport .resource 4 "a.resource" [])]⟩,
    ⟨.variableRows, none,
      [.leaf (.variableRow 6 "$\x7ba b\x7d" []), .leaf (.variableRow 7 "$\x7bA\x7d" []),
        .leaf (.variableRow 8 "@\x7bA_B\x7d =" []), .leaf (.variableRow 9 "$\x7ba\x7d" ["Faulty."])]⟩,
    ⟨.testCases, none,
      [.bare .testCase .testCaseName .testCaseName "My Test" 11,
        .bare .testCase .testCaseName .testCaseName "Other" 12,
        .bare .testCase .testCaseName .testCaseName "my_test" 13,
        .bare .testCase .testCaseName .testCaseName "other" 14,
        .bare .testCase .testCaseName .testCaseName "MY TEST" 15]⟩,
    ⟨.keywords, none,
      [.bare .keyword .keywordName .keywordName "My Test" 17,
        .bare .keyword .keywordName .keywordName "My Tests" 18]⟩]⟩⟩

namespace Options

open Check.Duplicate

theorem repeated_names_reported_repeatedNames :
    ∃ (s : Setup) (issues : List Issue), standard.setup .plain = ([], .ok s) ∧
      IsReadable Subject.repeatedNames.document ∧
      s.linter.scan .duplications .repeatedNames = .ok issues ∧
      s.linter.registry.enables "0801" = true ∧
      ((Issue.among [.duplicatedTestCase] issues).map Issue.entry).Perm
        [("0801", "Multiple test cases with name \"my_test\" (first occurrence in line 11)", 13, 1),
          ("0801", "Multiple test cases with name \"other\" (first occurrence in line 12)", 14, 1),
          ("0801", "Multiple test cases with name \"MY TEST\" (first occurrence in line 11)", 15, 1)] ∧
      s.linter.registry.enables "0802" = true ∧
      ((Issue.among [.duplicatedKeyword] issues).map Issue.entry).Perm [] ∧
      s.linter.registry.enables "0803" = true ∧
      ((Issue.among [.duplicatedVariable] issues).map Issue.entry).Perm
        [("0803", "Multiple variables with name \"@\x7bA_B\x7d\" in Variables section " ++
          "(first occurrence in line 6). Note that Robot Framework is case-insensitive", 8, 1)] ∧
      s.linter.registry.enables "0804" = true ∧
      ((Issue.among [.duplicatedResource] issues).map Issue.entry).Perm
        [("0804", "Multiple resource imports with path \"a.resource\" (first occurrence in line 2)",
          4, 1)] := by
  have hsetup := setup_standard .plain
  have hread : IsReadable Subject.repeatedNames.document := by decide +kernel
  obtain ⟨hiff, hreported⟩ := repeated_names_reported standard hsetup .blank .repeatedNames
  obtain ⟨issues, hissues⟩ := hiff.mpr hread
  have hon (kind : DeclarationKind) := enables_standard hsetup kind.rule
  have htests := hreported issues hissues .testCase (by decide) (hon .testCase)
  have hkeywords := hreported issues hissues .keyword (by decide) (hon .keyword)
  have hrows := hreported issues hissues .variableRow (by decide) (hon .variableRow)
  have hresources := hreported issues hissues .resource (by decide) (hon .resource)
  refine ⟨_, issues, hsetup, hread, hissues, hon .testCase, htests.trans (.of_eq ?_), hon .keyword,
    hkeywords.trans (.of_eq ?_), hon .variableRow, hrows.trans (.of_eq ?_), hon .resource,
    hresources.trans (.of_eq ?_)⟩
  all_goals decide +kernel

end Options

end SuiteLint
