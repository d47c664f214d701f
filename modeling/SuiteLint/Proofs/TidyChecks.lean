import SuiteLint.Proofs.RepeatGroups
import SuiteLint.Proofs.TidyParts

/-!
# Checks of tidy documents

All checks but that of tag names find the same in a document and in the document with its documentation
tidied: they read its places, its first data token, whether it is empty, and where its lines start.
-/

namespace SuiteLint

open Statement (tidied)

namespace Check

theorem gather_map_of_eq {α : Type} {check : α → Except Breakdown (List Finding)} {f : α → α}
    (h : ∀ x, check (f x) = check x) (xs : List α) : gather check (xs.map f) = gather check xs := by
  rw [gather_map, gather_congr fun x _ => h x]

theorem flatMap_map_of_eq {α β : Type} {check : α → List β} {f : α → α}
    (h : ∀ x, check (f x) = check x) (xs : List α) : (xs.map f).flatMap check = xs.flatMap check := by
  simp only [List.flatMap_map, h]

theorem flatMap_tidied {β : Type} {check : Node → List β}
    (hleaf : ∀ s : Statement, s.kind = .documentation → check (.leaf s.tidied) = check (.leaf s))
    (hblock : ∀ kind header body orelse close errors,
      check (.map tidied (.block kind header body orelse close errors)) =
        check (.block kind header body orelse close errors)) (ns : List Node) :
    (ns.map (Node.map tidied)).flatMap check = ns.flatMap check :=
  flatMap_map_of_eq (fun n => n.apply_tidied check hleaf hblock) ns

@[simp] theorem requiredName_tidied (n : Node) : requiredName (n.map tidied) = requiredName n := by
  simp [requiredName]

variable (modern : Bool) (values : Values) (fileName : String) (templated : Bool) (d : Document)

@[simp] theorem Comment.check_tidied : Comment.check modern (d.map tidied) = Comment.check modern d := by
  rw [Comment.check, Document.visited_map]
  refine flatMap_map_of_eq (fun n => ?_) _
  cases n with
  | leaf s => simp [inNode, inStatement, s.tokensOf_tidied .comment (by decide)]
  | block kind header body orelse close errors =>
    have hname := Node.name?_tidied (.block kind header body orelse close errors)
    have hline := Node.line_tidied (.block kind header body orelse close errors)
    have hcolumn := Node.column_tidied (.block kind header body orelse close errors)
    have hkind := Node.isBlockWith_map tidied (fun k => k = .testCase || k = .keyword)
      (.block kind header body orelse close errors)
    rw [Node.map_block] at *
    simp only [inNode, inName, hname, hline, hcolumn, hkind]

@[simp] theorem Documentation.missing_tidied (rule : RuleKey) (line : Int) (body : List Node) :
    missing rule line (body.map (Node.map tidied)) = missing rule line body := by
  simp [missing, isDocumented, List.any_map, Function.comp_def]

private theorem Documentation.inDefinition_tidied (n : Node) :
    inDefinition (n.map tidied) = inDefinition n := by
  simp [inDefinition, missing_tidied]

private theorem Documentation.inSection_tidied (s : Section) : inSection (s.map tidied) = inSection s := by
  simp only [inSection, Section.kind_map, Section.line_tidied, Section.body_map, missing_tidied,
    Section.outermost_map, gather_map_of_eq inDefinition_tidied]

@[simp] theorem Documentation.check_tidied : Documentation.check (d.map tidied) = Documentation.check d := by
  simp only [Documentation.check, Document.sections_map, gather_map_of_eq inSection_tidied,
    List.any_map, Function.comp_def, Section.kind_map]
  rfl

private theorem Duplicate.definitions_tidied (rule : RuleKey) (kind : BlockKind) :
    definitions rule kind (d.map tidied) = definitions rule kind d := by
  simp only [definitions, Document.blocksOf_map, repeats_map, report, List.map_map, Function.comp_def,
    Prod.map, Node.name?_tidied, Node.line_tidied]

@[simp] theorem Duplicate.check_tidied :
    Duplicate.check modern (d.map tidied) = Duplicate.check modern d := by
  have hinside : (d.map tidied).statements.flatMap Duplicate.inStatement =
      d.statements.flatMap Duplicate.inStatement := by
    rw [Document.statements_map]
    refine flatMap_map_of_eq (fun s => s.apply_tidied Duplicate.inStatement fun hs => ?_) _
    simp [Duplicate.inStatement, hs]
  simp only [Duplicate.check, hinside, definitions_tidied,
    d.statementsOf_tidied .variableRow (by decide),
    d.statementsOf_tidied .metadata (by decide),
    d.statementsOf_tidied .resourceImport (by decide),
    d.statementsOf_tidied .libraryImport (by decide),
    d.statementsOf_tidied .variablesImport (by decide)]

theorem SectionHeader.check_map (order : SectionOrder) {f : Statement → Statement}
    (hf : Statement.IsMild f) : SectionHeader.check order (d.map f) = SectionHeader.check order d := by
  rw [SectionHeader.check, hf.statementsOf_map (by decide), SectionHeader.check]

@[simp] theorem KeywordCall.checkNames_tidied :
    KeywordCall.checkNames (d.map tidied) = KeywordCall.checkNames d := by
  rw [checkNames, d.statementsOf_tidied _ (by decide), checkNames]

@[simp] theorem KeywordCall.checkSettings_tidied :
    KeywordCall.checkSettings (d.map tidied) = KeywordCall.checkSettings d := by
  rw [checkSettings, d.statementsOf_tidied _ (by decide), checkSettings]

@[simp] theorem KeywordCall.checkConditions_tidied :
    KeywordCall.checkConditions (d.map tidied) = KeywordCall.checkConditions d := by
  rw [checkConditions, d.statementsOf_tidied _ (by decide), checkConditions]

@[simp] theorem ParsingError.handle_tidied (kind : BlockKind) (header : Statement) (body : List Node)
    (orelse : Option Node) (close : Option Statement) (errors : List String) (error : String) :
    handle ((Node.block kind header body orelse close errors).map tidied) error =
      handle (.block kind header body orelse close errors) error := by
  have hline := Node.line_tidied (.block kind header body orelse close errors)
  have hmark : (header.tidied.mark?.bind fun k => header.tidied.token? [k]) =
      header.mark?.bind fun k => header.token? [k] := by
    refine header.apply_tidied (fun s => s.mark?.bind fun k => s.token? [k]) fun hheader => ?_
    simp [Statement.mark?, hheader, header.token?_tidied [.documentation] rfl]
  rw [Node.map_block] at hline ⊢
  simp only [handle, argument, setting, variableName, continuationMark, inBlock, plain, hline, hmark]

/-- A plain documentation has no faults, and the faults of a block are placed by its line and its
mark. -/
@[simp] theorem ParsingError.inNode_tidied (n : Node) :
    ParsingError.inNode (n.map tidied) = ParsingError.inNode n := by
  cases n with
  | block kind header body orelse close errors =>
    have hhandle := funext (handle_tidied kind header body orelse close errors)
    rw [Node.map_block] at hhandle ⊢
    cases kind <;> simp only [ParsingError.inNode, hhandle]
  | leaf s =>
    rw [Node.map_leaf]
    rcases s.tidied_cases with heq | ⟨before, pre, t, post, h⟩
    · rw [heq]
    · obtain ⟨hdoc, herrors, -⟩ := Statement.isPlainDoc_iff.mp h.plain
      simp [ParsingError.inNode, hdoc, herrors, gather]

@[simp] theorem ParsingError.check_tidied : ParsingError.check (d.map tidied) = ParsingError.check d := by
  rw [ParsingError.check, Document.visited_map, gather_map_of_eq inNode_tidied, ParsingError.check]

private theorem Setting.inStatement_tidied (s : Statement) :
    Setting.inStatement s.tidied = Setting.inStatement s := by
  rcases s.tidied_cases with heq | ⟨before, pre, t, post, h⟩
  · rw [heq]
  · have hdoc := (Statement.isPlainDoc_iff.mp h.plain).1
    simp [Setting.inStatement, broken, hdoc, h.isNone_longText?, h.longText?_ne,
      h.of_tidied.longText?_ne]

@[simp] theorem Setting.checkEmpty_tidied : Setting.checkEmpty (d.map tidied) = Setting.checkEmpty d := by
  rw [checkEmpty, Document.statements_map, gather_map_of_eq inStatement_tidied, checkEmpty]

@[simp] theorem Setting.checkVariablesImports_tidied :
    Setting.checkVariablesImports (d.map tidied) = Setting.checkVariablesImports d := by
  rw [checkVariablesImports, d.statementsOf_tidied _ (by decide), checkVariablesImports]

section Length

variable {f : Statement → Statement}

mutual

private theorem Length.calls_map (hf : Statement.IsMild f) : ∀ n : Node, Length.calls (n.map f) = Length.calls n
  | .leaf s => by simp [Length.calls, hf.kind]
  | .block kind header body orelse close errors => by
    simp [Length.calls, Length.callsOf_map hf body]

private theorem Length.callsOf_map (hf : Statement.IsMild f) : ∀ ns : List Node,
    Length.callsOf (ns.map (Node.map f)) = Length.callsOf ns
  | [] => rfl
  | n :: ns => by simp [Length.callsOf, Length.calls_map hf n, Length.callsOf_map hf ns]

end

variable (hf : Statement.IsMild f)
include hf

private theorem Length.lastFilledLine_map (n : Node) :
    Length.lastFilledLine (n.map f) = Length.lastFilledLine n := by
  simp only [lastFilledLine, Node.body_map, ← List.map_reverse, List.find?_map, Function.comp_def,
    hf.isStatement_map, hf.line_node]
  cases n.body.reverse.find? (!·.isStatement .emptyLine) <;> simp [hf.line_node]

theorem Length.argumentCount_map (n : Node) :
    Length.argumentCount (n.map f) = Length.argumentCount n := by
  simp only [argumentCount, Node.body_map, List.find?_map, Function.comp_def, hf.isStatement_map]
  cases hfound : n.body.find? (·.isStatement .arguments) with
  | none => rfl
  | some child =>
    have hchild := List.find?_some hfound
    cases child with
    | block => simp [Node.isStatement] at hchild
    | leaf s =>
      have hs : s.kind ≠ .documentation := by
        intro hs
        simp [Node.isStatement, hs] at hchild
      simp [hf.elsewhere hs]

theorem Length.inDefinition_map (n : Node) :
    Length.inDefinition values (n.map f) = Length.inDefinition values n := by
  have htest : inTestCase values (n.map f) = inTestCase values n := by
    simp only [inTestCase, span, counted, calls_map hf, hf.line_node, hf.endLine_node]
    rfl
  have hkeyword : inKeyword values (n.map f) = inKeyword values n := by
    simp only [inKeyword, tooManyArguments, span, counted, calls_map hf, lastFilledLine_map hf,
      argumentCount_map hf, hf.line_node, hf.endLine_node, Node.body_map, List.any_map,
      Function.comp_def, hf.isStatement_map]
    rfl
  have hname := hf.commentsOut_node n
  rw [inDefinition, inDefinition, Node.isBlock_map, htest, hkeyword, requiredName, requiredName]
  cases hn : n.name? <;> cases hn' : (n.map f).name? <;> simp_all [bind, Except.bind]

theorem Length.check_map : Length.check values (d.map f) = Length.check values d := by
  simp only [Length.check, inFile, Document.outermost_map,
    gather_map_of_eq (inDefinition_map values hf), hf.endLine_document]

end Length

@[simp] theorem Length.checkSections_tidied :
    Length.checkSections (d.map tidied) = Length.checkSections d := by
  have hempty (s : Section) : isEmptySection (s.map tidied) = isEmptySection s := by
    simp [isEmptySection, List.all_map, Function.comp_def]
  simp only [checkSections, Document.sections_map, List.filter_map, Function.comp_def, hempty,
    List.map_map, Section.line_tidied]

@[simp] theorem Length.checkReturned_tidied :
    Length.checkReturned values (d.map tidied) = Length.checkReturned values d := by
  rw [checkReturned, Document.statements_map]
  refine flatMap_map_of_eq (fun s => ?_) _
  have hreturned : returned s.tidied = returned s :=
    s.apply_tidied returned fun hs => by simp [returned, hs]
  simp only [hreturned, Statement.line_tidied]

@[simp] theorem Length.checkTestCases_tidied :
    Length.checkTestCases values templated (d.map tidied) =
      Length.checkTestCases values templated d := by
  simp only [checkTestCases, Document.sections_map, List.filter_map, Function.comp_def,
    Section.kind_map, List.flatMap_map, Section.body_map, Node.isBlock_map, List.length_map,
    Section.line_tidied]
  rfl

private theorem Assignment.callsIn_tidied (s : Section) :
    Assignment.callsIn (s.map tidied) = Assignment.callsIn s := by
  simp only [callsIn, Section.kind_map, Section.statements_map,
    Statement.isMild_tidied.filter_kind .keywordCall (by decide)]

@[simp] theorem Assignment.rowsIn_tidied (s : Section) :
    Assignment.rowsIn (s.map tidied) = Assignment.rowsIn s := by
  have hrow (n : Node) : (n.map tidied).statement?.filter (·.kind = .variableRow) =
      n.statement?.filter (·.kind = .variableRow) := by
    refine n.apply_tidied (fun n => n.statement?.filter (·.kind = .variableRow)) (fun s hs => ?_) ?_
    · simp [Node.statement?, Option.filter, hs]
    · simp [Node.statement?]
  simp only [rowsIn, Section.kind_map, Section.body_map, List.filterMap_map, Function.comp_def, hrow]

@[simp] theorem Assignment.check_tidied :
    Assignment.check values (d.map tidied) = Assignment.check values d := by
  have hsection (callSign rowSign : Option String) (s : Section) :
      inSection callSign rowSign (s.map tidied) = inSection callSign rowSign s := by
    simp only [inSection, callsIn_tidied, rowsIn_tidied]
  simp only [Assignment.check, expected, detect, calls, rows, Document.sections_map,
    flatMap_map_of_eq callsIn_tidied, flatMap_map_of_eq rowsIn_tidied,
    gather_map_of_eq (hsection _ _)]

@[simp] theorem Variable.checkEmpty_tidied :
    Variable.checkEmpty modern (d.map tidied) = Variable.checkEmpty modern d := by
  rw [checkEmpty, d.statementsOf_tidied _ (by decide), checkEmpty]

@[simp] theorem Definition.checkImports_tidied (standard : List String) :
    checkImports standard (d.map tidied) = checkImports standard d := by
  rw [checkImports, d.statementsOf_tidied _ (by decide), checkImports]

@[simp] theorem Definition.checkResource_tidied :
    Definition.checkResource fileName (d.map tidied) = Definition.checkResource fileName d := by
  simp only [checkResource, sourceOf, Document.source_map, Document.sections_map, List.isEmpty_map,
    List.any_map, Function.comp_def, Section.kind_map, Document.line_tidied]
  rfl

private theorem Definition.nested_tidied (n : Node) :
    Definition.nested (n.map tidied) = Definition.nested n := by
  rw [nested, Node.body_map]
  exact gather_map_of_eq (fun child => by rw [Node.mark?_tidied, Node.line_tidied]) _

@[simp] theorem Definition.checkLoops_tidied :
    Definition.checkLoops (d.map tidied) = Definition.checkLoops d := by
  rw [checkLoops, Document.outermost_map, gather_map_of_eq nested_tidied, checkLoops]

@[simp] theorem Definition.steps_tidied (p : Progress) (ss : List Statement) :
    p.steps (ss.map tidied) = p.steps ss := by
  induction ss generalizing p with
  | nil => rfl
  | cons s ss ih =>
    have hstep : p.step s.tidied = p.step s :=
      s.apply_tidied p.step fun hs => by simp [Progress.step, hs]
    simp only [List.map_cons, Progress.steps, hstep, ih]

private theorem Definition.returns_tidied (n : Node) :
    Definition.returns (n.map tidied) = Definition.returns n := by
  rw [returns, Node.body_map, Node.filterMap_statement?_map, steps_tidied, returns]

@[simp] theorem Definition.checkReturns_tidied :
    Definition.checkReturns (d.map tidied) = Definition.checkReturns d := by
  rw [checkReturns, Document.outermost_map, gather_map_of_eq returns_tidied, checkReturns]

@[simp] theorem Naming.checkCharacters_tidied :
    Naming.checkCharacters values fileName (d.map tidied) =
      Naming.checkCharacters values fileName d := by
  have hinside (p : Text.Pattern) (s : Statement) :
      Naming.inStatement p s.tidied = Naming.inStatement p s :=
    s.apply_tidied (Naming.inStatement p) fun hs => by simp [Naming.inStatement, hs]
  simp only [checkCharacters, Document.statements_map, gather_map_of_eq (hinside _),
    Definition.sourceOf, Document.source_map, Document.line_tidied]

@[simp] theorem Naming.checkTitles_tidied : Naming.checkTitles (d.map tidied) = Naming.checkTitles d := by
  rw [checkTitles, Document.outermost_map]
  refine flatMap_map_of_eq (fun n => ?_) _
  simp only [title, Node.name?_tidied, Node.line_tidied]

@[simp] theorem Naming.checkSettings_tidied :
    Naming.checkSettings (d.map tidied) = Naming.checkSettings d := by
  rw [checkSettings, Document.statements_map]
  refine gather_map_of_eq (fun s => s.apply_tidied inSetting fun hs => ?_) _
  simp [inSetting, hs]

private theorem KeywordName.inCondition_tidied (body : List Node) :
    KeywordName.inCondition (body.map (Node.map tidied)) = KeywordName.inCondition body := by
  refine flatMap_tidied (fun s hs => ?_) ?_ _
  · simp [hs]
  · simp

@[simp] theorem KeywordName.inNode_tidied (convention : String) (n : Node) :
    KeywordName.inNode modern convention (n.map tidied) = KeywordName.inNode modern convention n := by
  refine n.apply_tidied _ (fun s hs => ?_) fun kind header body orelse close errors => ?_
  · simp [KeywordName.inNode, isSetupOrTeardown, hs]
  · have hname := Node.name?_tidied (.block kind header body orelse close errors)
    have hline := Node.line_tidied (.block kind header body orelse close errors)
    rw [Node.map_block] at hname hline ⊢
    cases kind with
    | keyword =>
      simp only [KeywordName.inNode, hname, hline, judge, branches, story, spelling, tokenized,
        reserved]
    | if_ => simp only [KeywordName.inNode, inCondition_tidied]
    | _ => rfl

@[simp] theorem KeywordName.check_tidied :
    KeywordName.check modern values (d.map tidied) = KeywordName.check modern values d := by
  rw [KeywordName.check, Document.visited_map, gather_map_of_eq (inNode_tidied modern _),
    KeywordName.check]

@[simp] theorem Variable.inSectionRow_tidied (n : Node) :
    Variable.inSectionRow (n.map tidied) = Variable.inSectionRow n := by
  cases n with
  | block => simp [inSectionRow]
  | leaf s =>
    have hhead := s.head?_dataTokens_tidied
    rw [Node.map_leaf, inSectionRow, inSectionRow]
    cases hs : s.dataTokens <;> cases hs' : s.tidied.dataTokens <;> simp_all

private theorem Variable.inSection_tidied (s : Section) :
    Variable.inSection (s.map tidied) = Variable.inSection s := by
  simp only [Variable.inSection, Section.kind_map, Section.body_map, Section.statements_map,
    gather_map_of_eq inSectionRow_tidied,
    Statement.isMild_tidied.filter_kind .keywordCall (by decide)]

@[simp] theorem Variable.checkNames_tidied : Variable.checkNames (d.map tidied) = Variable.checkNames d := by
  rw [checkNames, Document.sections_map, gather_map_of_eq inSection_tidied, checkNames]

private theorem Variable.enter_tidied (kind : String) (n : Node) :
    Scope.enter kind (n.map tidied) = Scope.enter kind n := by
  simp only [Scope.enter, Node.body_map, Node.name?_tidied]
  congr 1
  refine flatMap_tidied (fun s hs => ?_) ?_ _
  · simp [hs]
  · simp

@[simp] theorem Variable.visit_tidied (scope : Scope) (n : Node) :
    scope.visit (n.map tidied) = scope.visit n := by
  refine n.apply_tidied scope.visit (fun s hs => ?_) fun kind header body orelse close errors => ?_
  · simp [Scope.visit, hs]
  · have henter (label : String) := enter_tidied label (.block kind header body orelse close errors)
    rw [Node.map_block] at henter ⊢
    cases kind with
    | keyword => simp only [Scope.visit, henter]
    | testCase => simp only [Scope.visit, henter]
    | if_ => rfl
    | for_ | forLoop =>
      simp only [Scope.visit, Statement.valuesOf, header.tokensOf_tidied .variableName (by decide)]

private theorem Variable.visitAll_tidied (scope : Scope) (ns : List Node) :
    scope.visitAll (ns.map (Node.map tidied)) = scope.visitAll ns := by
  induction ns generalizing scope with
  | nil => rfl
  | cons n ns ih => simp only [List.map_cons, Scope.visitAll, visit_tidied, ih]

@[simp] theorem Variable.checkSimilar_tidied (scope : Scope) :
    Variable.checkSimilar scope (d.map tidied) = Variable.checkSimilar scope d := by
  rw [checkSimilar, Document.visited_map, visitAll_tidied, checkSimilar]

@[simp] theorem EmptyLine.isEmptyLine_tidied (n : Node) :
    EmptyLine.isEmptyLine (n.map tidied) = EmptyLine.isEmptyLine n := by
  rw [isEmptyLine, Node.isStatement_tidied, isEmptyLine]

@[simp] theorem EmptyLine.runsFrom_tidied (limit : Int) (judged : Bool) (count : Nat) (last : Option Node)
    (ns : List Node) :
    runsFrom limit judged ⟨count, last.map (Node.map tidied)⟩ (ns.map (Node.map tidied)) =
      runsFrom limit judged ⟨count, last⟩ ns := by
  induction ns generalizing judged count last with
  | nil => rfl
  | cons n ns ih =>
    simp only [List.map_cons, runsFrom, isEmptyLine_tidied]
    split
    · cases judged with
      | true => exact ih true (count + 1) (some n)
      | false => exact ih false count last
    · rw [ih]
      cases last <;> simp

@[simp] theorem EmptyLine.runs_tidied (judged : Bool) (body : List Node) :
    EmptyLine.runs values judged (body.map (Node.map tidied)) = EmptyLine.runs values judged body :=
  runsFrom_tidied _ judged 0 none body

@[simp] theorem EmptyLine.betweenDefinitions_tidied (kind : BlockKind) (rule : RuleKey) (allowed : Int)
    (ns : List Node) :
    betweenDefinitions values kind rule allowed (ns.map (Node.map tidied)) =
      betweenDefinitions values kind rule allowed ns := by
  induction ns with
  | nil => rfl
  | cons n ns ih =>
    simp only [List.map_cons, betweenDefinitions, Node.isBlock_map, Node.body_map, runs_tidied, ih,
      Node.endLine_tidied, List.isEmpty_map]

@[simp] theorem EmptyLine.inStatement_tidied (s : Statement) :
    EmptyLine.inStatement false s.tidied.tokens = EmptyLine.inStatement false s.tokens := by
  refine s.read_tidied fun ts => ?_
  generalize false = afterEnd
  induction ts generalizing afterEnd with
  | nil => rfl
  | cons t ts ih =>
    simp only [List.map_cons, EmptyLine.inStatement, Token.kind_masked, Token.line_masked, ih]

private theorem EmptyLine.inSection_tidied (s : Section) :
    EmptyLine.inSection values templated (s.map tidied) = EmptyLine.inSection values templated s := by
  simp only [EmptyLine.inSection, Section.kind_map, Section.body_map, runs_tidied,
    betweenDefinitions_tidied, Section.statements_map, List.flatMap_map, inStatement_tidied]

@[simp] theorem EmptyLine.trailing_tidied (ns : List Node) :
    EmptyLine.trailing (ns.map (Node.map tidied)) = EmptyLine.trailing ns := by
  induction ns with
  | nil => rfl
  | cons n ns ih =>
    simp only [List.map_cons, trailing, isEmptyLine_tidied, ih, Node.isStatement_tidied,
      Node.isBlockWith_map, Node.body_map, ← List.map_reverse, List.takeWhile_map, Function.comp_def,
      List.length_map]

private theorem EmptyLine.afterSection_tidied (limit : Int) (s : Section) :
    EmptyLine.afterSection limit (s.map tidied) = EmptyLine.afterSection limit s := by
  have hempty (s : Statement) : s.tidied.tokens.isEmpty = s.tokens.isEmpty :=
    s.read_tidied (f := List.isEmpty) fun ts => List.isEmpty_map
  simp only [afterSection, Section.body_map, ← List.map_reverse, trailing_tidied, Section.header_map,
    Option.any_map, hempty, Section.endLine_tidied]

private theorem EmptyLine.afterHeader_tidied (limit : Int) (s : Section) :
    EmptyLine.afterHeader limit (s.map tidied) = EmptyLine.afterHeader limit s := by
  simp only [afterHeader, Section.body_map, List.takeWhile_map, Function.comp_def, isEmptyLine_tidied,
    List.length_map, List.all_map, List.getLast?_map]
  cases (s.body.takeWhile isEmptyLine).getLast? <;> simp

@[simp] theorem EmptyLine.check_tidied :
    EmptyLine.check values templated (d.map tidied) = EmptyLine.check values templated d := by
  simp only [EmptyLine.check, Document.sections_map, gather_map_of_eq (afterHeader_tidied _),
    ← List.map_dropLast, flatMap_map_of_eq (afterSection_tidied _),
    flatMap_map_of_eq (inSection_tidied values templated)]

@[simp] theorem Layout.checkSeparators_tidied :
    Layout.checkSeparators (d.map tidied) = Layout.checkSeparators d := by
  rw [checkSeparators, Document.statements_map,
    flatMap_map_of_eq fun s => s.tokensOf_tidied .separator (by decide), checkSeparators]

theorem Layout.inLine_tagWord {t : Token} (ht : Tag.IsTagWord t) (start : Nat) (column : Int)
    (indent : Nat) (pre post post' : List Token) :
    inLine start column indent (pre ++ t :: post) = inLine start column indent (pre ++ t :: post') := by
  have hblank := Text.isBlankText_tagWord ht.2
  have hdata : t.kind.isData = true := by
    have htext := ht.1
    simp only [Tag.isText, Bool.and_eq_true] at htext
    exact htext.1
  have hseparator : t.kind ≠ .separator := fun hk => by simp [hk, TokenKind.isData] at hdata
  have hmark : t.kind ≠ .continuation := fun hk => by simp [hk, TokenKind.isData] at hdata
  have hend : t.kind ≠ .eol := fun hk => by simp [hk, TokenKind.isData] at hdata
  induction pre generalizing indent with
  | nil => simp [inLine, hseparator, hmark, hend, hblank]
  | cons u pre ih => simp only [List.cons_append, inLine, ih]

private theorem Layout.inLines_last (start : Nat) {last last' : List Token}
    (h : ∀ column, inLine start column 0 last' = inLine start column 0 last) (column : Int)
    (before : List (List Token)) :
    inLines start column (before ++ [last']) = inLines start column (before ++ [last]) := by
  induction before generalizing column with
  | nil => simp [inLines, h]
  | cons line before ih => simp only [List.cons_append, inLines, ih]

@[simp] theorem Layout.inStatement_tidied (s : Statement) :
    Layout.inStatement s.tidied = Layout.inStatement s := by
  rcases s.tidied_cases with heq | ⟨before, pre, t, post, h⟩
  · rw [heq]
  · have hline (start : Nat) (column : Int) := inLine_tagWord h.announces start column 0 pre
      (post.map Tag.clean) post
    have hmark : s.mark? = some .documentation := by
      rw [Statement.mark?, (Statement.isPlainDoc_iff.mp h.plain).1]
    rw [Layout.inStatement, Layout.inStatement, Statement.isEmpty_dataTokens_tidied,
      Statement.mark?_tidied, h.lines_tidied, h.lines_eq, hmark]
    cases before with
    | nil => rfl
    | cons first before => simp only [List.cons_append, inLines_last _ (hline _)]

@[simp] theorem Layout.checkContinuations_tidied :
    Layout.checkContinuations (d.map tidied) = Layout.checkContinuations d := by
  rw [checkContinuations, Document.statements_map, gather_map_of_eq inStatement_tidied,
    checkContinuations]

theorem Layout.inVariableRow_plainDoc {s : Statement} (h : s.isPlainDoc = true) :
    Layout.inVariableRow (.leaf s) = .ok [] := by
  have hkinds := (Statement.isPlainDoc_iff.mp h).2.2
  rw [inVariableRow]
  cases hs : s.dataTokens with
  | nil => rfl
  | cons t args =>
    have ht : t.kind ≠ .variableName := by
      intro ht
      simp [hs, Statement.areDocKinds, ht] at hkinds
    simp [ht]

@[simp] theorem Layout.inVariableRow_tidied (n : Node) :
    Layout.inVariableRow (n.map tidied) = Layout.inVariableRow n := by
  cases n with
  | block => simp [inVariableRow]
  | leaf s =>
    rw [Node.map_leaf]
    rcases s.tidied_cases with heq | ⟨before, pre, t, post, h⟩
    · rw [heq]
    · rw [inVariableRow_plainDoc h.of_tidied.plain, inVariableRow_plainDoc h.plain]

@[simp] theorem Layout.inSettingRow_tidied (n : Node) :
    Layout.inSettingRow (n.map tidied) = Layout.inSettingRow n := by
  cases n with
  | block kind header body orelse close errors =>
    have hline := Node.line_tidied (.block kind header body orelse close errors)
    rw [Node.map_block] at hline ⊢
    refine gather_congr fun error _ => ?_
    simp only [inSettingFault, hline]
  | leaf s =>
    rw [Node.map_leaf]
    rcases s.tidied_cases with heq | ⟨before, pre, t, post, h⟩
    · rw [heq]
    · simp [inSettingRow, Node.errors, (Statement.isPlainDoc_iff.mp h.plain).2.1, gather]

private theorem Layout.inSection_tidied (s : Section) :
    Layout.inSection (s.map tidied) = Layout.inSection s := by
  simp only [Layout.inSection, Section.kind_map, Section.body_map,
    gather_map_of_eq inVariableRow_tidied, gather_map_of_eq inSettingRow_tidied]

@[simp] theorem Layout.checkAlignment_tidied :
    Layout.checkAlignment (d.map tidied) = Layout.checkAlignment d := by
  rw [checkAlignment, Document.sections_map, gather_map_of_eq inSection_tidied, checkAlignment]

@[simp] theorem Indent.leadingWidth_tidied (s : Statement) :
    Indent.leadingWidth s.tidied.tokens = Indent.leadingWidth s.tokens := by
  refine s.read_tidied fun ts => ?_
  induction ts with
  | nil => rfl
  | cons t ts ih =>
    simp only [leadingWidth] at ih ⊢
    by_cases ht : t.kind = .separator
    · have hne : t.kind ≠ .argument := by simp [ht]
      simp [ht, Token.masked_eq_self hne, ih]
    · simp [ht]

@[simp] theorem Indent.indentOf_tidied (n : Node) : Indent.indentOf (n.map tidied) = Indent.indentOf n := by
  cases n <;> simp [indentOf, leadingWidth_tidied]

private theorem Indent.isSetting_tidied (n : Node) :
    Indent.isSetting (n.map tidied) = Indent.isSetting n := by
  rw [isSetting, Node.mark?_tidied, isSetting]

private theorem Indent.isTemplated_tidied (n : Node) :
    Indent.isTemplated (n.map tidied) = Indent.isTemplated n := by
  simp only [isTemplated, Node.isBlock_map, Node.body_map, List.any_map, Function.comp_def,
    Node.mark?_tidied]

@[simp] theorem Indent.commentColumn?_tidied (n : Node) :
    Indent.commentColumn? (n.map tidied) = Indent.commentColumn? n := by
  cases n with
  | block => simp [commentColumn?]
  | leaf s => simp [commentColumn?, tokenColumn, s.token?_tidied [.comment] rfl]

@[simp] theorem Indent.tailLength_tidied (body : List Node) :
    Indent.tailLength (body.map (Node.map tidied)) = Indent.tailLength body := by
  have htail : isCommentOrEmpty ∘ Node.map tidied = isCommentOrEmpty := by
    funext n
    simp [isCommentOrEmpty]
  simp only [tailLength, ← List.map_reverse, List.takeWhile_map, htail, List.length_map,
    ← List.map_drop]
  cases body.reverse.drop (body.reverse.takeWhile isCommentOrEmpty).length <;> simp

private theorem Indent.bodyEnd_tidied (body : List Node) :
    Indent.bodyEnd (body.map (Node.map tidied)) = Indent.bodyEnd body := by
  simp only [bodyEnd, tailLength_tidied, List.length_map, ← List.map_drop, List.findIdx?_map,
    Function.comp_def, commentColumn?_tidied]

private theorem Indent.looseComments_tidied (ns : List Node) :
    Indent.looseComments (ns.map (Node.map tidied)) = Indent.looseComments ns :=
  flatMap_map_of_eq (fun n => by rw [commentColumn?_tidied, Node.line_tidied]) ns

private theorem Indent.uneven_tidied (earlier : Tally Nat) (rows : List Node) :
    Indent.uneven earlier (rows.map (Node.map tidied)) = Indent.uneven earlier rows := by
  simp only [uneven, List.map_map, Function.comp_def, indentOf_tidied, List.length_map,
    List.filter_map, Node.line_tidied]

private theorem Indent.judgedRows_tidied (n : Node) (stop : Nat) :
    Indent.judgedRows (n.map tidied) stop = (Indent.judgedRows n stop).map (Node.map tidied) := by
  simp only [judgedRows, Node.body_map, ← List.map_take, List.filter_map, Function.comp_def,
    Node.line_tidied, Node.isStatement_tidied]

private theorem Indent.inBranch_tidied (required : Int) (bounded : Bool) (earlier : Tally Nat) (n : Node) :
    Indent.inBranch required bounded earlier (n.map tidied) =
      Indent.inBranch required bounded earlier n := by
  simp only [inBranch, Node.body_map, List.length_map, bodyEnd_tidied, judgedRows_tidied,
    List.filter_map, Function.comp_def, isSetting_tidied, indentOf_tidied, isTemplated_tidied,
    ← List.map_drop, looseComments_tidied, List.map_map, Node.line_tidied, uneven_tidied]
  cases isTemplated n <;> simp only [Bool.false_eq_true, if_true, if_false, uneven_tidied]

@[simp] theorem Indent.inBranches_tidied (required : Int) (bounded : Bool) (earlier : Tally Nat)
    (ns : List Node) :
    Indent.inBranches required bounded earlier (ns.map (Node.map tidied)) =
      Indent.inBranches required bounded earlier ns := by
  induction ns generalizing earlier with
  | nil => rfl
  | cons n ns ih => simp only [List.map_cons, inBranches, inBranch_tidied, ih]

@[simp] theorem Indent.inStructure_tidied (n : Node) :
    Indent.inStructure (n.map tidied) = Indent.inStructure n := by
  rw [inStructure, inStructure, Node.header?_map, Node.close?_map, Node.branches_map,
    Option.isSome_map]
  cases n.header? with
  | none => rfl
  | some s =>
    have hcolumns : s.tidied.tokens.map (·.column) = s.tokens.map (·.column) :=
      s.read_tidied fun ts => by simp [Function.comp_def]
    simp only [Option.map_some]
    generalize s.tidied.tokens = ts', s.tokens = ts at hcolumns ⊢
    rcases ts with _ | ⟨t, _ | ⟨u, us⟩⟩ <;> rcases ts' with _ | ⟨t', _ | ⟨u', us'⟩⟩ <;>
      simp_all [inBranches_tidied]

@[simp] theorem Indent.inNode_tidied (n : Node) : Indent.inNode (n.map tidied) = Indent.inNode n := by
  cases n with
  | leaf s => simp [Indent.inNode]
  | block kind header body orelse close errors =>
    have hname := requiredName_tidied (.block kind header body orelse close errors)
    have hstructure := inStructure_tidied (.block kind header body orelse close errors)
    have hbranches := Node.branches_map tidied (.block kind header body orelse close errors)
    rw [Node.map_block] at hname hstructure hbranches ⊢
    cases kind <;> simp only [Indent.inNode, hname, hstructure, hbranches, inBranches_tidied]

private theorem Indent.indentedComments_tidied (body : List Node) :
    Indent.indentedComments (body.map (Node.map tidied)) = Indent.indentedComments body := by
  refine flatMap_tidied (fun s hs => ?_) ?_ _
  · simp [hs]
  · simp

private theorem Indent.inSection_tidied (s : Section) :
    Indent.inSection (s.map tidied) = Indent.inSection s := by
  simp only [Indent.inSection, Section.visitedUntil_map, gather_map_of_eq inNode_tidied,
    Section.kind_map, Section.body_map, indentedComments_tidied]
  rfl

@[simp] theorem Indent.check_tidied : Indent.check (d.map tidied) = Indent.check d := by
  rw [Indent.check, Document.sections_map, gather_map_of_eq inSection_tidied, Indent.check]

end Check

end SuiteLint
