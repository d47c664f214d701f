import Mathlib.Data.List.DropRight
import SuiteLint.Linter
import SuiteLint.Proofs.DocumentMap
import SuiteLint.Proofs.Gathering

/-!
# Cleaning the tags of a documentation

The check of tag names takes commas off the tags at the end of a [Documentation], in the document itself.
A checker that runs after it reads the changed document. Both are the same once all texts of a
[Documentation] are free of commas at their end.
-/

namespace SuiteLint

theorem Statement.flatten_cutLines (ts : List Token) : (cutLines ts).flatten = ts := by
  induction ts with
  | nil => rfl
  | cons t ts ih =>
    rw [cutLines]
    split
    · simp [ih]
    · cases h : cutLines ts with
      | nil => simp_all
      | cons line lines => simp_all

theorem Statement.flatten_lines (s : Statement) : s.lines.flatten = s.tokens :=
  flatten_cutLines s.tokens

theorem Node.visited_block (kind : BlockKind) (header : Statement) (body : List Node)
    (orelse : Option Node) (close : Option Statement) (errors : List String) :
    (block kind header body orelse close errors).visited =
      block kind header body orelse close errors :: leaf header ::
        (visitedUntilAll (fun _ => false) body ++ visitedUntilBranch (fun _ => false) orelse ++
          close.toList.map leaf) := by
  simp [visited, visitedUntil]

theorem Node.visited_eq_cons (n : Node) : n.visited = n :: n.visited.tail := by
  cases n with
  | leaf s => rfl
  | block kind header body orelse close errors => rw [visited_block, List.tail_cons]

/-! ## Changes that few checks see -/

/-- A change of statements that is seen in a [Documentation] only, and there neither in its place nor in
whether it comments something out. -/
structure Statement.IsMild (f : Statement → Statement) : Prop where
  elsewhere {s : Statement} : s.kind ≠ .documentation → f s = s
  kind (s : Statement) : (f s).kind = s.kind
  line (s : Statement) : (f s).line = s.line
  endLine (s : Statement) : (f s).endLine = s.endLine
  commentsOut (s : Statement) :
    (f s).name?.map isCommentedOut = s.name?.map isCommentedOut

namespace Statement.IsMild

variable {f : Statement → Statement} (hf : IsMild f)
include hf

theorem isStatement_map (n : Node) (kind : StatementKind) :
    (n.map f).isStatement kind = n.isStatement kind := by
  cases n <;> simp [Node.isStatement, hf.kind]

theorem line_node (n : Node) : (n.map f).line = n.line := by
  rw [Node.line, Node.statements_map, Node.line]
  cases n.statements <;> simp [hf.line]

theorem endLine_node (n : Node) : (n.map f).endLine = n.endLine := by
  rw [Node.endLine, Node.statements_map, List.getLast?_map, Node.endLine]
  cases n.statements.getLast? <;> simp [hf.endLine]

theorem line_document (d : Document) : (d.map f).line = d.line := by
  rw [Document.line, Document.statements_map, Document.line]
  cases d.statements <;> simp [hf.line]

theorem endLine_document (d : Document) : (d.map f).endLine = d.endLine := by
  rw [Document.endLine, Document.statements_map, List.getLast?_map, Document.endLine]
  cases d.statements.getLast? <;> simp [hf.endLine]

theorem commentsOut_node (n : Node) :
    (n.map f).name?.map isCommentedOut = n.name?.map isCommentedOut := by
  rw [Node.name?, Node.header?_map, Node.name?]
  cases n.header? <;> simp [hf.commentsOut]

theorem filter_kind (kind : StatementKind) (h : kind ≠ .documentation) (ss : List Statement) :
    (ss.map f).filter (·.kind = kind) = ss.filter (·.kind = kind) := by
  induction ss with
  | nil => rfl
  | cons s ss ih =>
    by_cases hs : s.kind = kind
    · have hne : s.kind ≠ .documentation := hs ▸ h
      simp [hs, ih, hf.elsewhere hne]
    · simp [hs, ih, hf.kind]

theorem statementsOf_map {kind : StatementKind} (h : kind ≠ .documentation) (d : Document) :
    (d.map f).statementsOf kind = d.statementsOf kind := by
  rw [Document.statementsOf, Document.statements_map, hf.filter_kind _ h, Document.statementsOf]

end Statement.IsMild

namespace Check.Tag

/-! ## Texts without commas at their end -/

/-- A token as it is in a tidy line of tags. -/
def clean (t : Token) : Token := if isText t then withoutCommas t else t

@[simp] theorem kind_clean (t : Token) : (clean t).kind = t.kind := by
  unfold clean
  split <;> rfl

@[simp] theorem line_clean (t : Token) : (clean t).line = t.line := by
  unfold clean
  split <;> rfl

@[simp] theorem isText_clean (t : Token) : isText (clean t) = isText t := by
  simp only [isText, kind_clean]

theorem clean_eq_self {t : Token} (h : isText t = false) : clean t = t := by simp [clean, h]

theorem clean_clean (t : Token) : clean (clean t) = clean t := by
  by_cases h : isText t = true
  · have hc : isText (clean t) = true := by rw [isText_clean, h]
    rw [clean, if_pos hc, clean, if_pos h]
    simp [withoutCommas, Text.dropEndWhile, List.dropWhile_idempotent]
  · rw [clean_eq_self (t := t) (by simpa using h), clean_eq_self (by simpa using h)]

private theorem isCommentedOut_append {front commas : List Char} (h : ∀ c ∈ commas, c = ',') :
    isCommentedOut (String.ofList (front ++ commas)) = isCommentedOut (String.ofList front) := by
  simp only [isCommentedOut, String.toList_ofList, Text.trimLeft]
  induction front with
  | nil =>
    cases commas with
    | nil => rfl
    | cons c commas =>
      obtain rfl := h c List.mem_cons_self
      rfl
  | cons c front ih =>
    rw [List.cons_append]
    by_cases hc : Text.isBlank c = true
    · rwa [List.dropWhile_cons_of_pos hc, List.dropWhile_cons_of_pos hc]
    · rw [List.dropWhile_cons_of_neg hc, List.dropWhile_cons_of_neg hc]
      split <;> simp_all

theorem isCommentedOut_clean (t : Token) : isCommentedOut (clean t).value = isCommentedOut t.value := by
  unfold clean
  split
  · have hcommas : ∀ c ∈ (t.value.toList.reverse.takeWhile (· == ',')).reverse, c = ',' := by
      intro c hc
      simpa using List.mem_takeWhile_imp (List.mem_reverse.mp hc)
    have hvalue : t.value.toList = Text.dropEndWhile (· == ',') t.value.toList ++
        (t.value.toList.reverse.takeWhile (· == ',')).reverse := by
      rw [Text.dropEndWhile, ← List.reverse_append, List.takeWhile_append_dropWhile,
        List.reverse_reverse]
    rw [withoutCommas, ← isCommentedOut_append hcommas, ← hvalue, String.ofList_toList]
  · rfl

end Check.Tag

/-- A statement whose texts are free of commas at their end, if it is a [Documentation]. -/
def Statement.cleaned (s : Statement) : Statement :=
  if s.kind = .documentation then { s with tokens := s.tokens.map Check.Tag.clean } else s

@[simp] theorem Statement.tokens_cleaned (s : Statement) : s.cleaned.tokens = [] ↔ s.tokens = [] := by
  unfold cleaned
  split <;> simp

theorem Statement.isMild_cleaned : IsMild cleaned where
  elsewhere h := if_neg h
  kind s := by
    unfold cleaned
    split <;> rfl
  line s := by
    unfold cleaned
    split
    · cases hs : s.tokens <;> simp [line, hs]
    · rfl
  endLine s := by
    unfold cleaned
    split
    · cases hs : s.tokens.getLast? <;> simp [endLine, hs]
    · rfl
  commentsOut s := by
    unfold cleaned
    split
    · next hs =>
      simp only [name?, hs, value?, token?, List.find?_map, Function.comp_def, Check.Tag.kind_clean]
      cases s.tokens.find? fun t => [TokenKind.name].contains t.kind <;>
        simp [Check.Tag.isCommentedOut_clean]
    · rfl

namespace Check.Tag

/-! ## What the check of names keeps -/

theorem cleaned_inDocumentation {s s' : Statement} {here : List Finding}
    (hs : s.kind = .documentation) (h : inDocumentation s = .ok (here, s')) : s'.cleaned = s.cleaned := by
  unfold inDocumentation at h
  cases hlines : s.lines.reverse with
  | nil => simp [hlines] at h
  | cons last before =>
    rw [hlines] at h
    dsimp only at h
    split at h
    · have htokens : s.tokens = before.reverse.flatten ++ last := by
        have hsplit : s.lines = before.reverse ++ [last] := by simpa using congrArg List.reverse hlines
        simp [← s.flatten_lines, hsplit]
      cases h
      change Statement.cleaned { s with tokens := before.reverse.flatten ++ last.map clean } = _
      simp [Statement.cleaned, hs, htokens, Function.comp_def, clean_clean]
    · cases h
      rfl

theorem cleaned_inStatement {flag : Bool} {s s' : Statement} {here : List Finding}
    (h : inStatement flag s = .ok (here, s')) : s'.cleaned = s.cleaned := by
  unfold inStatement at h
  split at h
  case h_4 hs =>
    split at h
    · exact cleaned_inDocumentation hs h
    · cases h
      rfl
  all_goals
    cases h
    rfl

theorem inNode_block_eq_ok {flag : Bool} {kind : BlockKind} {header : Statement} {body : List Node}
    {orelse : Option Node} {close : Option Statement} {errors : List String} {here : List Finding}
    {n' : Node} {flag' : Bool}
    (h : inNode flag (.block kind header body orelse close errors) = .ok (here, n', flag')) :
    ∃ f1 header' f2 body' flag2 f3 orelse' flag3 f4 close',
      inStatement (flag || kind = .keyword) header = .ok (f1, header') ∧
      inNodes (flag || kind = .keyword) body = .ok (f2, body', flag2) ∧
      inBranch flag2 orelse = .ok (f3, orelse', flag3) ∧
      inStatement? flag3 close = .ok (f4, close') ∧
      n' = .block kind header' body' orelse' close' errors ∧ flag' = (flag3 && kind ≠ .keyword) := by
  rw [inNode] at h
  obtain ⟨⟨f1, header'⟩, h1, h⟩ := exists_of_bind_eq_ok h
  obtain ⟨⟨f2, body', flag2⟩, h2, h⟩ := exists_of_bind_eq_ok h
  obtain ⟨⟨f3, orelse', flag3⟩, h3, h⟩ := exists_of_bind_eq_ok h
  obtain ⟨⟨f4, close'⟩, h4, h⟩ := exists_of_bind_eq_ok h
  simp only [pure, Except.pure, Except.ok.injEq, Prod.mk.injEq] at h
  exact ⟨f1, header', f2, body', flag2, f3, orelse', flag3, f4, close', h1, h2, h3, h4,
    h.2.1.symm, h.2.2.symm⟩

section

/-- A reading of statements does not see what the check does to those with a property. -/
def Keeps (f : Statement → Statement) (P : Statement → Prop) : Prop :=
  ∀ {flag : Bool} {s s' : Statement} {here : List Finding}, P s →
    inStatement flag s = .ok (here, s') → f s' = f s

variable {f : Statement → Statement} {P : Statement → Prop} {flag flag' : Bool} {here : List Finding}

theorem keeps_inStatement? (hf : Keeps f P) {s s' : Option Statement}
    (hP : ∀ st, .leaf st ∈ s.toList.map Node.leaf → P st) (h : inStatement? flag s = .ok (here, s')) :
    s'.map f = s.map f := by
  cases s with
  | none => simp_all [inStatement?]
  | some st =>
    obtain ⟨⟨here', st'⟩, hst, h⟩ := exists_of_bind_eq_ok h
    cases h
    exact congrArg some (hf (hP st (by simp)) hst)

mutual

/-- The check keeps the reading, and what starts outside of keywords ends there. -/
theorem keeps_inNode (hf : Keeps f P) {flag flag' : Bool} {here : List Finding} :
    ∀ {n n' : Node}, (∀ s, .leaf s ∈ n.visited → P s) → inNode flag n = .ok (here, n', flag') →
      n'.map f = n.map f ∧ (flag = false → flag' = false)
  | .leaf s, n', hP, h => by
    rw [inNode] at h
    obtain ⟨⟨found, s'⟩, hs, h⟩ := exists_of_bind_eq_ok h
    cases h
    rw [Node.map_leaf, Node.map_leaf, hf (hP s (by simp [Node.visited, Node.visitedUntil])) hs]
    exact ⟨rfl, id⟩
  | .block kind header body orelse close errors, n', hP, h => by
    rw [Node.visited_block] at hP
    obtain ⟨f1, header', f2, body', flag2, f3, orelse', flag3, f4, close', h1, h2, h3, h4, rfl, rfl⟩ :=
      inNode_block_eq_ok h
    obtain ⟨hbody, hflag2⟩ := keeps_inNodes hf (fun s hs => hP s (by simp [hs])) h2
    obtain ⟨horelse, hflag3⟩ := keeps_inBranch hf (fun s hs => hP s (by simp [hs])) h3
    have hclose := keeps_inStatement? hf (fun s hs => hP s (by simp_all)) h4
    constructor
    · rw [Node.map_block, Node.map_block, hf (hP header (by simp)) h1, hbody, horelse, hclose]
    · intro hflag
      by_cases hkind : kind = .keyword
      · simp [hkind]
      · simp [hflag3 (hflag2 (by simp [hflag, hkind]))]

theorem keeps_inNodes (hf : Keeps f P) {flag flag' : Bool} {here : List Finding} :
    ∀ {ns ns' : List Node}, (∀ s, .leaf s ∈ Node.visitedUntilAll (fun _ => false) ns → P s) →
      inNodes flag ns = .ok (here, ns', flag') →
      ns'.map (Node.map f) = ns.map (Node.map f) ∧ (flag = false → flag' = false)
  | [], ns', _, h => by
    cases h
    exact ⟨rfl, id⟩
  | n :: ns, ns', hP, h => by
    rw [Node.visitedUntilAll] at hP
    rw [inNodes] at h
    obtain ⟨⟨f1, n', flag1⟩, h1, h⟩ := exists_of_bind_eq_ok h
    obtain ⟨⟨f2, ns'', flag2⟩, h2, h⟩ := exists_of_bind_eq_ok h
    cases h
    obtain ⟨hn, hflag1⟩ := keeps_inNode hf (fun s hs => hP s (List.mem_append_left _ hs)) h1
    obtain ⟨hns, hflag2⟩ := keeps_inNodes hf (fun s hs => hP s (List.mem_append_right _ hs)) h2
    rw [List.map_cons, List.map_cons, hn, hns]
    exact ⟨rfl, hflag2 ∘ hflag1⟩

theorem keeps_inBranch (hf : Keeps f P) {flag flag' : Bool} {here : List Finding} :
    ∀ {n n' : Option Node}, (∀ s, .leaf s ∈ Node.visitedUntilBranch (fun _ => false) n → P s) →
      inBranch flag n = .ok (here, n', flag') →
      n'.map (Node.map f) = n.map (Node.map f) ∧ (flag = false → flag' = false)
  | none, n', _, h => by
    cases h
    exact ⟨rfl, id⟩
  | some n, n', hP, h => by
    rw [inBranch] at h
    obtain ⟨⟨f1, n'', flag1⟩, h1, h⟩ := exists_of_bind_eq_ok h
    cases h
    obtain ⟨hn, hflag⟩ := keeps_inNode hf hP h1
    exact ⟨congrArg some hn, hflag⟩

end

theorem keeps_inSections (hf : Keeps f P) {ss ss' : List Section}
    (hP : ∀ s, .leaf s ∈ ss.flatMap Section.visited → P s)
    (h : inSections flag ss = .ok (here, ss', flag')) :
    ss'.map (Section.map f) = ss.map (Section.map f) ∧ (flag = false → flag' = false) := by
  induction ss generalizing flag here ss' with
  | nil =>
    cases h
    exact ⟨rfl, id⟩
  | cons s ss ih =>
    rw [List.flatMap_cons, Section.visited, Section.visitedUntil] at hP
    rw [inSections] at h
    obtain ⟨⟨f1, header'⟩, h1, h⟩ := exists_of_bind_eq_ok h
    obtain ⟨⟨f2, body', flag2⟩, h2, h⟩ := exists_of_bind_eq_ok h
    obtain ⟨⟨f3, ss'', flag3⟩, h3, h⟩ := exists_of_bind_eq_ok h
    cases h
    have hheader := keeps_inStatement? hf (fun st hst => hP st (by simp_all)) h1
    obtain ⟨hbody, hflag2⟩ := keeps_inNodes hf (fun st hst => hP st (by simp [hst])) h2
    obtain ⟨hrest, hflag3⟩ := ih (fun st hst => hP st (List.mem_append_right _ hst)) h3
    rw [List.map_cons, List.map_cons, hrest]
    simp only [Section.map, hheader, hbody]
    exact ⟨trivial, hflag3 ∘ hflag2⟩

theorem keeps_checkNames (hf : Keeps f P) {d d' : Document}
    (hP : ∀ s, .leaf s ∈ d.visited → P s) (h : checkNames flag d = .ok (here, d', flag')) :
    d'.map f = d.map f ∧ (flag = false → flag' = false) := by
  obtain ⟨⟨found, ss, flag1⟩, hs, h⟩ := exists_of_bind_eq_ok h
  cases h
  obtain ⟨hsections, hflag⟩ := keeps_inSections hf hP hs
  exact ⟨by simp only [Document.map, hsections], hflag⟩

end

theorem cleaned_checkNames {flag flag' : Bool} {here : List Finding} {d d' : Document}
    (h : checkNames flag d = .ok (here, d', flag')) :
    d'.map Statement.cleaned = d.map Statement.cleaned ∧ (flag = false → flag' = false) :=
  keeps_checkNames (P := fun _ => True) (fun _ => cleaned_inStatement) (fun _ _ => trivial) h

/-! ## When the check of names succeeds -/

def Worded (ns : List Node) : Prop :=
  ∀ s, .leaf s ∈ ns → s.kind = .documentation → s.tokens ≠ []

theorem Worded.mono {ns ms : List Node} (h : Worded ms) (hsub : ∀ n ∈ ns, n ∈ ms) : Worded ns :=
  fun s hs => h s (hsub _ hs)

theorem worded_map_cleaned {ns : List Node} : Worded (ns.map (Node.map Statement.cleaned)) ↔ Worded ns := by
  constructor
  · intro h s hs hkind
    have hcleaned := h s.cleaned (List.mem_map.mpr ⟨_, hs, Node.map_leaf ..⟩)
    rw [Statement.isMild_cleaned.kind, ne_eq, Statement.tokens_cleaned] at hcleaned
    exact hcleaned hkind
  · intro h s hs hkind
    obtain ⟨n, hn, heq⟩ := List.mem_map.mp hs
    cases n with
    | block => simp at heq
    | leaf st =>
      obtain rfl : st.cleaned = s := by simpa using heq
      rw [Statement.isMild_cleaned.kind] at hkind
      exact mt st.tokens_cleaned.mp (h st hn hkind)

private theorem inStatement_ok (flag : Bool) (s : Statement)
    (h : s.kind = .documentation → s.tokens ≠ []) : ∃ r, inStatement flag s = .ok r := by
  unfold inStatement
  split
  case h_4 hs =>
    split
    · unfold inDocumentation
      have hlines : s.lines.reverse ≠ [] := by
        intro he
        apply h hs
        rw [← s.flatten_lines, List.reverse_eq_nil_iff.mp he, List.flatten_nil]
      cases hrev : s.lines.reverse with
      | nil => exact absurd hrev hlines
      | cons last before =>
        dsimp only
        split <;> exact ⟨_, rfl⟩
    · exact ⟨_, rfl⟩
  all_goals exact ⟨_, rfl⟩

private theorem inStatement?_ok (flag : Bool) (s : Option Statement)
    (h : Worded (s.toList.map .leaf)) : ∃ r, inStatement? flag s = .ok r := by
  cases s with
  | none => exact ⟨_, rfl⟩
  | some s =>
    obtain ⟨r, hr⟩ := inStatement_ok flag s (h s (by simp))
    exact ⟨_, by rw [inStatement?, hr]; rfl⟩

mutual

theorem inNode_ok (flag : Bool) : ∀ n : Node, Worded n.visited → ∃ r, inNode flag n = .ok r
  | .leaf s, h => by
    obtain ⟨r, hr⟩ := inStatement_ok flag s (h s (by simp [Node.visited, Node.visitedUntil]))
    exact ⟨_, by rw [inNode, hr]; rfl⟩
  | .block kind header body orelse close errors, h => by
    rw [Node.visited_block] at h
    obtain ⟨r1, h1⟩ := inStatement_ok (flag || kind = .keyword) header (h header (by simp))
    obtain ⟨r2, h2⟩ := inNodes_ok (flag || kind = .keyword) body (h.mono (by simp +contextual))
    obtain ⟨r3, h3⟩ := inBranch_ok r2.2.2 orelse (h.mono (by simp +contextual))
    obtain ⟨r4, h4⟩ := inStatement?_ok r3.2.2 close (h.mono (by simp +contextual))
    exact ⟨_, by rw [inNode, h1]; simp only [bind, Except.bind, h2, h3, h4]; rfl⟩

theorem inNodes_ok (flag : Bool) :
    ∀ ns : List Node, Worded (Node.visitedUntilAll (fun _ => false) ns) → ∃ r, inNodes flag ns = .ok r
  | [], _ => ⟨_, rfl⟩
  | n :: ns, h => by
    rw [Node.visitedUntilAll] at h
    obtain ⟨r1, h1⟩ := inNode_ok flag n (h.mono fun m hm => List.mem_append_left _ hm)
    obtain ⟨r2, h2⟩ := inNodes_ok r1.2.2 ns (h.mono fun m hm => List.mem_append_right _ hm)
    exact ⟨_, by rw [inNodes, h1]; simp only [bind, Except.bind, h2]; rfl⟩

private theorem inBranch_ok (flag : Bool) :
    ∀ n : Option Node, Worded (Node.visitedUntilBranch (fun _ => false) n) → ∃ r, inBranch flag n = .ok r
  | none, _ => ⟨_, rfl⟩
  | some n, h => by
    obtain ⟨r, hr⟩ := inNode_ok flag n h
    exact ⟨_, by rw [inBranch, hr]; rfl⟩

end

theorem inSections_ok (flag : Bool) (ss : List Section) (h : Worded (ss.flatMap Section.visited)) :
    ∃ r, inSections flag ss = .ok r := by
  induction ss generalizing flag with
  | nil => exact ⟨_, rfl⟩
  | cons s ss ih =>
    rw [List.flatMap_cons, Section.visited, Section.visitedUntil] at h
    obtain ⟨r1, h1⟩ := inStatement?_ok flag s.header (h.mono (by simp +contextual))
    obtain ⟨r2, h2⟩ := inNodes_ok flag s.body (h.mono (by simp +contextual))
    obtain ⟨r3, h3⟩ := ih r2.2.2 (h.mono fun m hm => List.mem_append_right _ hm)
    exact ⟨_, by rw [inSections, h1]; simp only [bind, Except.bind, h2, h3]; rfl⟩

theorem checkNames_ok (flag : Bool) (d : Document) (h : Worded d.visited) :
    ∃ here d' flag', checkNames flag d = .ok (here, d', flag') := by
  obtain ⟨r, hr⟩ := inSections_ok flag d.sections h
  exact ⟨_, _, _, by rw [checkNames, hr]; rfl⟩

/-! ## What the check of settings reads -/

section

variable {f : Statement → Statement} (hf : Statement.IsMild f)
include hf

private theorem visit_map (scope : Scope) (n : Node) : scope.visit (n.map f) = scope.visit n := by
  cases n with
  | block kind => cases kind <;> simp [Scope.visit]
  | leaf s =>
    by_cases hs : s.kind = .documentation
    · simp [Scope.visit, hf.kind, hs]
    · simp [hf.elsewhere hs]

private theorem visitAll_map (scope : Scope) (ns : List Node) :
    scope.visitAll (ns.map (Node.map f)) = scope.visitAll ns := by
  induction ns generalizing scope with
  | nil => rfl
  | cons n ns ih => simp only [List.map_cons, Scope.visitAll, visit_map hf, ih]

private theorem visitSections_map (scope : Scope) (ss : List Section) :
    scope.visitSections (ss.map (Section.map f)) = scope.visitSections ss := by
  induction ss generalizing scope with
  | nil => rfl
  | cons s ss ih =>
    simp only [List.map_cons, Scope.visitSections, Scope.visitSection, Section.kind_map,
      Section.visited_map, visitAll_map hf, ih]

theorem checkScopes_map (arrange : List String → List String) (t : Trace) (d : Document) :
    checkScopes arrange t (d.map f) = checkScopes arrange t d := by
  simp only [checkScopes, Document.sections_map, visitSections_map hf, Scope.summary, hf.line_document]

end

end Check.Tag

end SuiteLint
