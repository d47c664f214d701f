import SuiteLint.Proofs.BodyEnd
import SuiteLint.Proofs.FindingIssues

/-!
# Which blocks the check of indentation reaches

The check judges the rows of definitions and of the FOR and IF blocks in them, but does not look for
further blocks inside those. What is found in a block depends on the block alone.
-/

namespace SuiteLint.Check.Indent

/-! ## Blocks and their depth -/

mutual

/-- The blocks at and below a node, each with the number of FOR and IF blocks around it. The ELSE branches are
no blocks of their own. -/
def blocksAt (depth : Nat) : Node → List (Nat × Node)
  | .leaf _ => []
  | .block kind header body orelse close errors =>
    (depth, .block kind header body orelse close errors) ::
      (blocksAmong (if isStructure kind then depth + 1 else depth) body ++
        blocksInBranch (if isStructure kind then depth + 1 else depth) orelse)

def blocksAmong (depth : Nat) : List Node → List (Nat × Node)
  | [] => []
  | n :: ns => blocksAt depth n ++ blocksAmong depth ns

def blocksInBranch (depth : Nat) : Option Node → List (Nat × Node)
  | none => []
  | some (.leaf _) => []
  | some (.block _ _ body orelse _ _) => blocksAmong depth body ++ blocksInBranch depth orelse

end

mutual

theorem le_depth_of_mem_blocksAt {depth : Nat} {entry : Nat × Node} :
    ∀ {n : Node}, entry ∈ blocksAt depth n → depth ≤ entry.1
  | .leaf _, h => by simp [blocksAt] at h
  | .block kind header body orelse close errors, h => by
    rw [blocksAt, List.mem_cons, List.mem_append] at h
    have hinner : depth ≤ if isStructure kind then depth + 1 else depth := by split <;> omega
    rcases h with rfl | h | h
    · exact Nat.le_refl _
    · exact Nat.le_trans hinner (le_depth_of_mem_blocksAmong h)
    · exact Nat.le_trans hinner (le_depth_of_mem_blocksInBranch h)

theorem le_depth_of_mem_blocksAmong {depth : Nat} {entry : Nat × Node} :
    ∀ {ns : List Node}, entry ∈ blocksAmong depth ns → depth ≤ entry.1
  | [], h => by simp [blocksAmong] at h
  | n :: ns, h => by
    rw [blocksAmong, List.mem_append] at h
    rcases h with h | h
    · exact le_depth_of_mem_blocksAt h
    · exact le_depth_of_mem_blocksAmong h

theorem le_depth_of_mem_blocksInBranch {depth : Nat} {entry : Nat × Node} :
    ∀ {n : Option Node}, entry ∈ blocksInBranch depth n → depth ≤ entry.1
  | none, h => by simp [blocksInBranch] at h
  | some (.leaf _), h => by simp [blocksInBranch] at h
  | some (.block _ _ body orelse _ _), h => by
    rw [blocksInBranch, List.mem_append] at h
    rcases h with h | h
    · exact le_depth_of_mem_blocksAmong h
    · exact le_depth_of_mem_blocksInBranch h

end

/-- A block as a reader of suite files makes it: a FOR or IF is indented, so that its header has a second
token, a keyword has a name, and only an IF has other branches. -/
structure IsRegular (n : Node) : Prop where
  headed : n.isBlockWith isStructure = true →
    ∃ first second rest, n.header?.map (·.tokens) = some (first :: second :: rest)
  named : n.isBlock .keyword = true → ∃ name, n.name? = some name
  single : n.isBlockWith isStructure = false → n.orelse = none

def judged (n : Node) : List Finding := (inNode n).toOption.getD []

theorem inNode_of_isRegular {n : Node} (h : IsRegular n) : inNode n = .ok (judged n) := by
  suffices hok : ∃ here, inNode n = .ok here by
    obtain ⟨here, hhere⟩ := hok
    rw [judged, hhere]
    rfl
  have hstructure (hn : n.isBlockWith isStructure = true) : ∃ here, inStructure n = .ok here := by
    obtain ⟨first, second, rest, htokens⟩ := h.headed hn
    simp only [inStructure, htokens]
    exact ⟨_, rfl⟩
  cases n with
  | leaf s => exact ⟨[], rfl⟩
  | block kind header body orelse close errors =>
    cases kind with
    | testCase => exact ⟨_, rfl⟩
    | keyword =>
      obtain ⟨name, hname⟩ := h.named rfl
      simp only [inNode, requiredName, hname]
      exact ⟨_, rfl⟩
    | for_ => exact hstructure rfl
    | forLoop => exact hstructure rfl
    | if_ => exact hstructure rfl

/-! ## What is visited -/

def isAnyBlock (n : Node) : Bool := n.isBlockWith fun _ => true

private theorem judged_of_not_block {n : Node} (h : isAnyBlock n = false) : judged n = [] := by
  cases n with
  | leaf s => rfl
  | block kind header body orelse close errors => cases h

private theorem filter_depth_eq_nil {entries : List (Nat × Node)} (h : ∀ entry ∈ entries, 1 ≤ entry.1) :
    entries.filter (·.1 == 0) = [] := by
  rw [List.filter_eq_nil_iff]
  intro entry hentry hzero
  have := h entry hentry
  simp at hzero
  omega

mutual

/-- The visited blocks are those with no FOR or IF around them. -/
theorem visitedUntil_blocks : ∀ n : Node, (∀ entry ∈ blocksAt 0 n, IsRegular entry.2) →
    (n.visitedUntil isStructure).filter isAnyBlock = ((blocksAt 0 n).filter (·.1 == 0)).map (·.2)
  | .leaf s, _ => by simp [Node.visitedUntil, blocksAt, isAnyBlock, Node.isBlockWith]
  | .block kind header body orelse close errors, h => by
    rw [Node.visitedUntil, blocksAt] at *
    have hself : isAnyBlock (.block kind header body orelse close errors) = true := rfl
    rw [List.filter_cons_of_pos hself, List.filter_cons_of_pos rfl, List.map_cons]
    congr 1
    cases hkind : isStructure kind with
    | true =>
      rw [filter_depth_eq_nil]
      · rfl
      · intro entry hentry
        rw [List.mem_append] at hentry
        rcases hentry with hentry | hentry
        · exact le_depth_of_mem_blocksAmong hentry
        · exact le_depth_of_mem_blocksInBranch hentry
    | false =>
      have horelse : orelse = none := (h _ List.mem_cons_self).single hkind
      have hbody := visitedUntilAll_blocks body fun entry hentry =>
        h entry (List.mem_cons_of_mem _ (List.mem_append_left _ (by simpa [hkind] using hentry)))
      have hclose : (close.toList.map Node.leaf).filter isAnyBlock = [] := by cases close <;> rfl
      have hheader : isAnyBlock (.leaf header) = false := rfl
      simp [horelse, hbody, hclose, hheader, Node.visitedUntilBranch, blocksInBranch]

theorem visitedUntilAll_blocks : ∀ ns : List Node, (∀ entry ∈ blocksAmong 0 ns, IsRegular entry.2) →
    (Node.visitedUntilAll isStructure ns).filter isAnyBlock =
      ((blocksAmong 0 ns).filter (·.1 == 0)).map (·.2)
  | [], _ => rfl
  | n :: ns, h => by
    rw [blocksAmong] at h
    rw [Node.visitedUntilAll, blocksAmong, List.filter_append, List.filter_append, List.map_append,
      visitedUntil_blocks n fun entry hentry => h entry (List.mem_append_left _ hentry),
      visitedUntilAll_blocks ns fun entry hentry => h entry (List.mem_append_right _ hentry)]

end

/-! ## What is found -/

/-- What is found in a section if its blocks are judged that have as many FOR and IF blocks around them as the
test admits. -/
def foundWithin (admits : Nat → Bool) (s : Section) : List Finding :=
  (if s.kind = .testCases || s.kind = .keywords then indentedComments s.body else []) ++
    ((blocksAmong 0 s.body).filter (admits ·.1)).flatMap (judged ·.2)

theorem inSection_eq {s : Section} (h : ∀ entry ∈ blocksAmong 0 s.body, IsRegular entry.2) :
    inSection s = .ok (foundWithin (· == 0) s) := by
  have hblocks := visitedUntilAll_blocks s.body h
  have hnode : ∀ n ∈ s.visitedUntil isStructure, inNode n = .ok (judged n) := by
    intro n hn
    cases hblock : isAnyBlock n with
    | false =>
      cases n with
      | leaf st => rfl
      | block kind header body orelse close errors => cases hblock
    | true =>
      have hmem : n ∈ (Node.visitedUntilAll isStructure s.body).filter isAnyBlock := by
        refine List.mem_filter.mpr ⟨?_, hblock⟩
        rcases List.mem_append.mp hn with hheader | hbody
        · obtain ⟨st, -, rfl⟩ := List.mem_map.mp hheader
          cases hblock
        · exact hbody
      rw [hblocks] at hmem
      obtain ⟨entry, hentry, rfl⟩ := List.mem_map.mp hmem
      exact inNode_of_isRegular (h entry (List.mem_filter.mp hentry).1)
  have hvisited : (s.visitedUntil isStructure).flatMap judged =
      ((blocksAmong 0 s.body).filter (·.1 == 0)).flatMap (judged ·.2) := by
    have hleaves := (flatMap_filter_eq_iff isAnyBlock judged (s.visitedUntil isStructure)).mpr
      fun n _ hn => judged_of_not_block hn
    have hheader : (s.header.toList.map Node.leaf).filter isAnyBlock = [] := by cases s.header <;> rfl
    rw [← hleaves, Section.visitedUntil, List.filter_append, hheader, List.nil_append, hblocks,
      List.flatMap_map]
  simp only [inSection, gather_eq_ok hnode, hvisited, bind, Except.bind, pure, Except.pure]
  rfl

def IsRegularIn (d : Document) : Prop :=
  ∀ s ∈ d.sections, ∀ entry ∈ blocksAmong 0 s.body, IsRegular entry.2

private theorem check_eq {d : Document} (h : IsRegularIn d) :
    check d = .ok (d.sections.flatMap (foundWithin (· == 0))) :=
  gather_eq_ok fun s hs => inSection_eq (h s hs)

private theorem foundWithin_sublist (admits : Nat → Bool) (s : Section) :
    (foundWithin admits s).Sublist (foundWithin (fun _ => true) s) := by
  apply (List.Sublist.refl _).append
  rw [List.filter_eq_self.mpr fun _ _ => rfl]
  exact List.filter_sublist.flatMap _

private theorem foundWithin_eq_iff (admits : Nat → Bool) (s : Section) :
    foundWithin admits s = foundWithin (fun _ => true) s ↔
      ∀ entry ∈ blocksAmong 0 s.body, admits entry.1 = false → judged entry.2 = [] := by
  rw [foundWithin, foundWithin, List.append_cancel_left_eq, List.filter_eq_self.mpr fun _ _ => rfl]
  exact flatMap_filter_eq_iff (fun entry : Nat × Node => admits entry.1) (judged ·.2) _

/-! ## The rules and messages -/

def OnIndent (f : Finding) : Prop :=
  (f.rule = .unevenIndent ∨ f.rule = .badIndent) ∧ f.Fills

theorem onIndent_uneven {word : String} (h : word = "over" ∨ word = "under") (line col : Int) :
    OnIndent (found .unevenIndent [.string word] line col) := by
  have hfill : ∀ word ∈ ["over", "under"],
      (Text.fill RuleKey.unevenIndent.template [.string word]).toOption.isSome = true := by
    decide
  have hword := hfill word (by simpa using h)
  refine ⟨Or.inl rfl, ?_⟩
  unfold Finding.Fills
  cases hdesc : Text.fill RuleKey.unevenIndent.template [.string word] with
  | ok desc => exact ⟨desc, hdesc⟩
  | error e => simp [hdesc, Except.toOption] at hword

private theorem onIndent_bad (line col : Int) : OnIndent (found .badIndent [] line col) := by
  have hplain : '%' ∉ RuleKey.badIndent.template.toList := by decide
  exact ⟨Or.inr rfl, _, Text.fill_of_no_place hplain⟩

theorem onIndent_looseComments {ns : List Node} {f : Finding} (h : f ∈ looseComments ns) :
    OnIndent f := by
  obtain ⟨n, -, hn⟩ := List.mem_flatMap.mp h
  split at hn
  · split at hn
    · cases hn
    · rw [List.mem_singleton.mp hn]
      exact onIndent_uneven (Or.inl rfl) _ _
  · cases hn

theorem onIndent_of_mem_uneven {earlier : Tally Nat} {rows : List Node} {f : Finding}
    (h : f ∈ (uneven earlier rows).1) : OnIndent f := by
  simp only [uneven] at h
  generalize (if earlier.isEmpty = true then _ else _ : Tally Nat) = counts at h
  split at h
  · cases h
  · split at h
    · cases h
    · obtain ⟨n, -, rfl⟩ := List.mem_map.mp h
      apply onIndent_uneven
      split
      · exact Or.inl rfl
      · exact Or.inr rfl

theorem onIndent_inBranch {required : Int} {bounded : Bool} {earlier : Tally Nat} {n : Node}
    {f : Finding} (h : f ∈ (inBranch required bounded earlier n).1) : OnIndent f := by
  simp only [inBranch, List.mem_append] at h
  rcases h with ((hbad | hloose) | hodd) | hsettings
  · obtain ⟨child, -, rfl⟩ := List.mem_map.mp hbad
    exact onIndent_bad _ _
  · split at hloose
    · cases hloose
    · exact onIndent_looseComments hloose
  · exact onIndent_of_mem_uneven hodd
  · split at hsettings
    · exact onIndent_of_mem_uneven hsettings
    · cases hsettings

theorem onIndent_inBranches {required : Int} {bounded : Bool} {earlier : Tally Nat} {ns : List Node}
    {f : Finding} (h : f ∈ inBranches required bounded earlier ns) : OnIndent f := by
  induction ns generalizing earlier with
  | nil => cases h
  | cons n ns ih =>
    rcases List.mem_append.mp h with h | h
    · exact onIndent_inBranch h
    · exact ih h

theorem onIndent_judged {n : Node} {f : Finding} (h : f ∈ judged n) : OnIndent f := by
  have hstructure (hf : f ∈ (inStructure n).toOption.getD []) : OnIndent f := by
    unfold inStructure at hf
    split at hf
    · exact onIndent_inBranches hf
    · cases hf
  cases n with
  | leaf s => cases h
  | block kind header body orelse close errors =>
    cases kind with
    | testCase => exact onIndent_inBranches h
    | keyword =>
      simp only [judged, inNode] at h
      cases hname : requiredName (.block .keyword header body orelse close errors) with
      | error e =>
        rw [hname] at h
        cases h
      | ok name =>
        simp only [hname, bind, Except.bind, pure, Except.pure, Except.toOption, Option.getD_some] at h
        split at h
        · cases h
        · exact onIndent_inBranches h
    | for_ => exact hstructure h
    | forLoop => exact hstructure h
    | if_ => exact hstructure h

theorem onIndent_indentedComments {body : List Node} {f : Finding} (h : f ∈ indentedComments body) :
    OnIndent f := by
  obtain ⟨n, -, hn⟩ := List.mem_flatMap.mp h
  split at hn
  · split at hn
    · rw [List.mem_singleton.mp hn]
      exact onIndent_uneven (Or.inl rfl) _ _
    · cases hn
  · cases hn

theorem onIndent_foundWithin {admits : Nat → Bool} {s : Section} {f : Finding}
    (h : f ∈ foundWithin admits s) : OnIndent f := by
  rcases List.mem_append.mp h with h | h
  · split at h
    · exact onIndent_indentedComments h
    · cases h
  · obtain ⟨entry, -, hf⟩ := List.mem_flatMap.mp h
    exact onIndent_judged hf

end SuiteLint.Check.Indent

namespace SuiteLint

open Check.Indent

/-! ## What is reported -/

/-- The id of a finding's rule, its message and its place. -/
def Finding.entry (f : Finding) : String × String × Int × Int := (f.rule.id, f.message, f.line, f.col)

def Issue.entry (i : Issue) : String × String × Int × Int := (i.ruleId, i.desc, i.line, i.col)

namespace Document

/-- What is found in the blocks that have as many FOR and IF blocks around them as the test admits. -/
def indentFindings (d : Document) (admits : Nat → Bool) : List Finding :=
  d.sections.flatMap (foundWithin admits)

private theorem mem_indentFindings {d : Document} {admits : Nat → Bool} {f : Finding}
    (h : f ∈ d.indentFindings admits) : f.rule ∈ Checker.indents.keys ∧ f.Fills := by
  obtain ⟨s, -, hs⟩ := List.mem_flatMap.mp h
  obtain ⟨hrule | hrule, hfills⟩ := onIndent_foundWithin hs
  · exact ⟨by rw [hrule]; decide, hfills⟩
  · exact ⟨by rw [hrule]; decide, hfills⟩

theorem entries_indentFindings_eq_iff (d : Document) (admits : Nat → Bool) :
    (d.indentFindings admits).map Finding.entry =
        (d.indentFindings fun _ => true).map Finding.entry ↔
      ∀ s ∈ d.sections, ∀ block ∈ blocksAmong 0 s.body, admits block.1 = false →
        judged block.2 = [] := by
  have hsub : ∀ s ∈ d.sections, (foundWithin admits s).Sublist (foundWithin (fun _ => true) s) :=
    fun s _ => foundWithin_sublist admits s
  rw [indentFindings, indentFindings,
    map_eq_iff_of_sublist (List.Sublist.flatMap_right d.sections hsub), flatMap_eq_iff_of_sublist hsub]
  exact forall₂_congr fun s _ => foundWithin_eq_iff admits s

end Document

namespace Options

/-- Where uneven-indent (1007) and bad-indent (1008) are on, the checker reports what is found in the blocks
that no FOR or IF is around, and nothing else. So it reports what is found in the blocks at all depths exactly
if nothing is found in those inside a FOR or an IF. -/
theorem nested_blocks_judged_iff (o : Options) {host : Host} {notes : List String} {s : Setup}
    (h : o.setup host = (notes, .ok s)) (huneven : s.linter.registry.enables "1007" = true)
    (hbad : s.linter.registry.enables "1008" = true) (subject : Subject)
    (hregular : IsRegularIn subject.document) :
    ∃ issues : List Issue, s.linter.scan .indents subject = .ok issues ∧
      issues.map Issue.entry =
        (subject.document.indentFindings (· == 0)).map Finding.entry ∧
      (issues.map Issue.entry =
          (subject.document.indentFindings fun _ => true).map Finding.entry ↔
        ∀ part ∈ subject.document.sections, ∀ block ∈ blocksAmong 0 part.body, 0 < block.1 →
          judged block.2 = []) := by
  obtain ⟨-, t, -, hlinter⟩ := setup_ok_iff.mp h
  have huneven' : o.selection.picks .unevenIndent = true := (enables_eq_picks h _).symm.trans huneven
  have hbad' : o.selection.picks .badIndent = true := (enables_eq_picks h _).symm.trans hbad
  have hkeys : ∀ f ∈ subject.document.indentFindings (· == 0),
      f.rule ∈ Checker.indents.keys ∧ f.Fills := fun f => Document.mem_indentFindings
  have hpicked : (subject.document.indentFindings (· == 0)).filter (o.selection.picks ·.rule) =
      subject.document.indentFindings (· == 0) := by
    rw [List.filter_eq_self]
    intro f hf
    have hrule : f.rule = .unevenIndent ∨ f.rule = .badIndent := by
      simpa [Checker.keys] using (hkeys f hf).1
    rcases hrule with hrule | hrule
    · rw [hrule, huneven']
    · rw [hrule, hbad']
  have hscan : s.linter.scan .indents subject =
      .ok ((subject.document.indentFindings (· == 0)).map (·.issue t subject.fileName)) := by
    rw [hlinter, ← hpicked]
    exact Linter.scan_of_fills (check_eq hregular) hkeys
  have hentries : ((subject.document.indentFindings (· == 0)).map
      (·.issue t subject.fileName)).map Issue.entry =
        (subject.document.indentFindings (· == 0)).map Finding.entry := by
    rw [List.map_map]
    rfl
  refine ⟨_, hscan, hentries, ?_⟩
  rw [hentries, Document.entries_indentFindings_eq_iff]
  simp [Nat.pos_iff_ne_zero]

end Options

namespace Check.Indent

def loopWith (first last : Int) (blanks : String) (body : List Node) : Node :=
  .block .for_ ⟨.forHeader, [⟨.separator, blanks, first, 0⟩, ⟨.for_, "FOR", first, blanks.length⟩], []⟩
    body none
    (some ⟨.end_, [⟨.separator, blanks, last, 0⟩, ⟨.end_, "END", last, blanks.length⟩], []⟩) []

private theorem isRegular_loopWith (first last : Int) (blanks : String) (body : List Node) :
    IsRegular (loopWith first last blanks body) where
  headed _ := ⟨_, _, _, rfl⟩
  named h := by cases h
  single h := by cases h

private theorem isRegular_testWith (body : List Node) : IsRegular (testWith body) where
  headed h := by cases h
  named h := by cases h
  single _ := rfl

def innerLoop (blanks : String) : Node :=
  loopWith 6 9 "        " [row 7 "            ", row 8 blanks]

def outerLoop (outer inner : String) : Node :=
  loopWith 3 10 "    " [row 4 "        ", row 5 outer, innerLoop inner]

def loopInLoop (outer inner : String) : List Node :=
  [outerLoop outer inner, .leaf ⟨.emptyLine, [⟨.eol, "\n", 11, 0⟩], []⟩]

theorem blocksAmong_loopInLoop (outer inner : String) :
    blocksAmong 0 [testWith (loopInLoop outer inner)] =
      [(0, testWith (loopInLoop outer inner)), (0, outerLoop outer inner), (1, innerLoop inner)] := rfl

end Check.Indent

def Subject.loopInLoop (outer inner : String) : Subject :=
  ⟨"a.robot", .text [], ⟨none, [⟨.testCases, none, [testWith (Check.Indent.loopInLoop outer inner)]⟩]⟩⟩

theorem Check.Indent.isRegularIn_loopInLoop (outer inner : String) :
    IsRegularIn (Subject.loopInLoop outer inner).document := by
  intro part hpart block hblock
  rw [List.mem_singleton.mp hpart, blocksAmong_loopInLoop] at hblock
  simp only [List.mem_cons, List.not_mem_nil, or_false] at hblock
  rcases hblock with rfl | rfl | rfl
  · exact isRegular_testWith _
  · exact isRegular_loopWith ..
  · exact isRegular_loopWith ..

namespace Options

/-- A row of a FOR that is indented too far is reported, and the rows of the FOR inside are even. -/
theorem nested_blocks_judged_iff_even :
    ∃ (s : Setup) (issues : List Issue), standard.setup .plain = ([], .ok s) ∧
      s.linter.registry.enables "1007" = true ∧ s.linter.registry.enables "1008" = true ∧
      s.linter.scan .indents (.loopInLoop "          " "            ") = .ok issues ∧
      issues.map Issue.entry = [("1007", "Line is over-indented", 5, 11)] ∧
      issues.map Issue.entry = ((Subject.loopInLoop "          " "            ").document.indentFindings
        fun _ => true).map Finding.entry := by
  have hsetup := setup_standard .plain
  have huneven := enables_standard hsetup .unevenIndent
  have hbad := enables_standard hsetup .badIndent
  obtain ⟨issues, hissues, hreached, hall⟩ := nested_blocks_judged_iff standard hsetup huneven hbad
    (.loopInLoop "          " "            ") (isRegularIn_loopInLoop _ _)
  refine ⟨_, issues, hsetup, huneven, hbad, hissues, ?_, hall.mpr ?_⟩
  · rw [hreached]
    decide +kernel
  · intro part hpart block hblock hdepth
    rw [List.mem_singleton.mp hpart, blocksAmong_loopInLoop] at hblock
    simp only [List.mem_cons, List.not_mem_nil, or_false] at hblock
    rcases hblock with rfl | rfl | rfl
    · exact absurd hdepth (Nat.lt_irrefl 0)
    · exact absurd hdepth (Nat.lt_irrefl 0)
    · rfl

/-- A row of the FOR inside is indented too far, and nothing is reported. -/
theorem row_of_inner_loop_not_judged :
    ∃ s : Setup, standard.setup .plain = ([], .ok s) ∧
      s.linter.registry.enables "1007" = true ∧ s.linter.registry.enables "1008" = true ∧
      s.linter.scan .indents (.loopInLoop "        " "              ") = .ok [] ∧
      ((Subject.loopInLoop "        " "              ").document.indentFindings
        fun _ => true).map Finding.entry = [("1007", "Line is over-indented", 8, 15)] := by
  have hsetup := setup_standard .plain
  refine ⟨_, hsetup, enables_standard hsetup .unevenIndent, enables_standard hsetup .badIndent, ?_,
    by decide +kernel⟩
  rw [Linter.scan_tuned]
  rfl

end Options

end SuiteLint
