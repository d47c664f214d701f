import SuiteLint.Proofs.ListedRules
import SuiteLint.Proofs.SuiteTotals

/-!
# Where the report on a long keyword can be silenced

A keyword that is too long (0501) is reported where it ends. A disabler silences the report on this line, on
the first line of the keyword, and on the line where the last part of its body starts that is no empty line.
-/

namespace SuiteLint

/-! ## Lines in order -/

/-- A statement ends on the line where another one starts, or before it. Empty lines start on a line of their
own. -/
structure Statement.Precedes (s other : Statement) : Prop where
  lines : s.endLine ≤ other.line
  empty : other.kind = .emptyLine → s.endLine < other.line

instance (s other : Statement) : Decidable (s.Precedes other) :=
  decidable_of_iff (s.endLine ≤ other.line ∧ (other.kind = .emptyLine → s.endLine < other.line))
    ⟨fun h => ⟨h.1, h.2⟩, fun h => ⟨h.lines, h.empty⟩⟩

namespace Node

theorem statements_definition (kind : BlockKind) (header : Statement) (body : List Node)
    (errors : List String) :
    (block kind header body none none errors).statements = header :: body.flatMap statements := by
  have hbody : (visitedUntilAll (fun _ => false) body).filterMap statement? =
      body.flatMap statements := by
    induction body with
    | nil => rfl
    | cons n ns ih =>
      rw [visitedUntilAll, List.filterMap_append, ih, List.flatMap_cons]
      rfl
  rw [statements, visited_block, visitedUntilBranch, ← hbody, Option.toList_none, List.map_nil,
    List.append_nil, List.append_nil]
  rfl

@[simp] theorem statements_leaf (s : Statement) : (leaf s).statements = [s] := by
  simp [statements, visited, visitedUntil, statement?]

@[simp] theorem statements_ne_nil (n : Node) : n.statements ≠ [] := by
  cases n with
  | leaf s => simp [statements_leaf]
  | block kind header body orelse close errors =>
    rw [statements, visited_block]
    simp [statement?]

private theorem line_eq_of_statements {n : Node} {s : Statement} {rest : List Statement}
    (h : n.statements = s :: rest) : n.line = s.line := by
  rw [line, h]

private theorem endLine_eq_of_statements {n m : Node} {front : List Statement}
    (h : n.statements = front ++ m.statements) : n.endLine = m.endLine := by
  rw [endLine, endLine, h, List.getLast?_append_of_ne_nil _ m.statements_ne_nil]

theorem exists_last (n : Node) :
    ∃ front last, n.statements = front ++ [last] ∧ n.endLine = last.endLine := by
  obtain ⟨front, last, hfront⟩ := (List.eq_nil_or_concat' n.statements).resolve_left n.statements_ne_nil
  exact ⟨front, last, hfront, by rw [endLine, hfront, List.getLast?_concat]⟩

/-- A definition whose statements stand in order and all in its body. -/
structure InOrder (n : Node) : Prop where
  whole : n.orelse = none ∧ n.close? = none
  spans : ∀ s ∈ n.statements, s.line ≤ s.endLine
  order : n.statements.Pairwise Statement.Precedes

/-- A body with a part that is no empty line, and after it nothing but empty lines. -/
structure FilledUpTo (n part : Node) (before blanks : List Node) : Prop where
  body : n.body = before ++ part :: blanks
  filled : part.isStatement .emptyLine = false
  empty : ∀ m ∈ blanks, m.isStatement .emptyLine = true

theorem exists_filledUpTo {n : Node} (h : ∃ m ∈ n.body, m.isStatement .emptyLine = false) :
    ∃ part before blanks, n.FilledUpTo part before blanks := by
  have hsome : (n.body.reverse.find? (!·.isStatement .emptyLine)).isSome = true := by
    rw [List.find?_isSome]
    simpa using h
  obtain ⟨part, hpart⟩ := Option.isSome_iff_exists.mp hsome
  obtain ⟨hfilled, blanks, before, hsplit, hempty⟩ := List.find?_eq_some_iff_append.mp hpart
  refine ⟨part, before.reverse, blanks.reverse, ?_, by simpa using hfilled, by simpa using hempty⟩
  rw [← List.reverse_reverse n.body, hsplit, List.reverse_append, List.reverse_cons, List.append_assoc,
    List.singleton_append]

theorem lastFilledLine_eq {n part : Node} {before blanks : List Node}
    (h : n.FilledUpTo part before blanks) : Check.Length.lastFilledLine n = part.line := by
  have hfind : n.body.reverse.find? (!·.isStatement .emptyLine) = some part := by
    rw [h.body, List.reverse_append, List.reverse_cons, List.append_assoc, List.find?_append,
      List.find?_eq_none.mpr (by simpa using h.empty), List.singleton_append,
      List.find?_cons_of_pos (by rw [h.filled]; rfl)]
    rfl
  rw [Check.Length.lastFilledLine, hfind]

section

variable {n part : Node} {before blanks : List Node}

theorem FilledUpTo.statements_eq (h : n.FilledUpTo part before blanks) (horder : n.InOrder) :
    ∃ header, n.statements =
      header :: (before.flatMap statements ++ (part.statements ++ blanks.flatMap statements)) := by
  obtain ⟨horelse, hclose⟩ := horder.whole
  have hbody := h.body
  cases n with
  | leaf s => simp [Node.body] at hbody
  | block kind header body orelse close errors =>
    obtain rfl : orelse = none := horelse
    obtain rfl : close = none := hclose
    obtain rfl : body = before ++ part :: blanks := hbody
    exact ⟨header, by rw [statements_definition, List.flatMap_append, List.flatMap_cons]⟩

theorem FilledUpTo.part_inOrder (h : n.FilledUpTo part before blanks) (horder : n.InOrder) :
    (∀ s ∈ part.statements, s.line ≤ s.endLine) ∧ part.statements.Pairwise Statement.Precedes := by
  obtain ⟨header, hstatements⟩ := h.statements_eq horder
  have hspans := horder.spans
  have hpairs := horder.order
  rw [hstatements] at hspans hpairs
  refine ⟨fun s hs => hspans s (by simp [hs]), ?_⟩
  exact (List.pairwise_append.mp (List.pairwise_append.mp (List.pairwise_cons.mp hpairs).2).2.1).1

theorem FilledUpTo.endLine_le (h : n.FilledUpTo part before blanks) (horder : n.InOrder) :
    ∀ s ∈ part.statements, s.endLine ≤ part.endLine := by
  obtain ⟨hspans, hpairs⟩ := h.part_inOrder horder
  obtain ⟨front, last, hfront, hend⟩ := part.exists_last
  intro s hs
  have hline := hspans last (by simp [hfront])
  rw [hend]
  rw [hfront] at hs hpairs
  rcases List.mem_append.mp hs with hs | hs
  · have hle := ((List.pairwise_append.mp hpairs).2.2 s hs last (List.mem_singleton_self last)).lines
    omega
  · obtain rfl := List.mem_singleton.mp hs
    exact Int.le_refl _

/-- A part starts after the first line of the definition or on it, and ends after its own or on it. -/
theorem FilledUpTo.lines_le (h : n.FilledUpTo part before blanks) (horder : n.InOrder) :
    n.line ≤ part.line ∧ part.line ≤ part.endLine := by
  obtain ⟨first, rest, hfirst⟩ := List.exists_cons_of_ne_nil part.statements_ne_nil
  have hmem : first ∈ part.statements := by simp [hfirst]
  obtain ⟨header, hstatements⟩ := h.statements_eq horder
  have hprecedes : header.Precedes first := by
    have hpairs := horder.order
    rw [hstatements, List.pairwise_cons] at hpairs
    exact hpairs.1 first (by simp [hmem])
  have hheader := horder.spans header (by simp [hstatements])
  have hspan := (h.part_inOrder horder).1 first hmem
  have hend := h.endLine_le horder first hmem
  have hle := hprecedes.lines
  rw [line_eq_of_statements hstatements, line_eq_of_statements hfirst]
  omega

/-- A definition ends with a part of its body exactly if no empty lines follow. -/
theorem FilledUpTo.endLine_eq_iff (h : n.FilledUpTo part before blanks) (horder : n.InOrder) :
    part.endLine = n.endLine ↔ blanks = [] := by
  obtain ⟨header, hstatements⟩ := h.statements_eq horder
  constructor
  · intro heq
    by_contra hne
    -- the last empty line starts after the last line of the part
    obtain ⟨more, blank, rfl⟩ := (List.eq_nil_or_concat' blanks).resolve_left hne
    have hblank := h.empty blank (by simp)
    cases blank with
    | block => cases hblank
    | leaf st =>
      have hkind : st.kind = .emptyLine := of_decide_eq_true hblank
      have hend : n.endLine = st.endLine := by
        have hfront : n.statements = header :: (before.flatMap statements ++
            (part.statements ++ more.flatMap statements)) ++ (leaf st).statements := by
          simp [hstatements]
        exact endLine_eq_of_statements hfront
      have hspan := horder.spans st (by simp [hstatements, statements_leaf])
      obtain ⟨front, last, hlast, hpart⟩ := part.exists_last
      have hprecedes : last.Precedes st := by
        have hpairs := horder.order
        rw [hstatements] at hpairs
        have hinner := (List.pairwise_append.mp (List.pairwise_cons.mp hpairs).2).2.1
        exact (List.pairwise_append.mp hinner).2.2 last (by simp [hlast]) st (by simp [statements_leaf])
      have hlt := hprecedes.empty hkind
      omega
  · rintro rfl
    rw [List.flatMap_nil, List.append_nil, ← List.cons_append] at hstatements
    exact (endLine_eq_of_statements hstatements).symm

end

def silencingLines (n : Node) : List Int := [n.endLine, n.line, Check.Length.lastFilledLine n]

/-- The line where the last part of a body ends is one of these lines exactly if no empty lines follow or the
part takes one line. -/
theorem FilledUpTo.endLine_mem_silencingLines_iff {n part : Node} {before blanks : List Node}
    (h : n.FilledUpTo part before blanks) (horder : n.InOrder) :
    part.endLine ∈ n.silencingLines ↔ blanks = [] ∨ part.line = part.endLine := by
  obtain ⟨hfirst, hlast⟩ := h.lines_le horder
  rw [← h.endLine_eq_iff horder, silencingLines, lastFilledLine_eq h]
  simp only [List.mem_cons, List.not_mem_nil, or_false]
  omega

/-- A keyword with more lines than allowed after its first, unless its name makes a comment of it. -/
structure IsTooLong (limit : Int) (n : Node) : Prop where
  keyword : n.isBlock .keyword = true
  judged : isCommentedOut (n.name?.getD "") = false
  long : limit < n.endLine - n.line

instance (limit : Int) (n : Node) : Decidable (n.IsTooLong limit) :=
  decidable_of_iff (n.isBlock .keyword = true ∧ isCommentedOut (n.name?.getD "") = false ∧
    limit < n.endLine - n.line) ⟨fun h => ⟨h.1, h.2.1, h.2.2⟩, fun h => ⟨h.keyword, h.judged, h.long⟩⟩

def longEntry (limit : Int) (n : Node) : String × String × Int × Int :=
  ("0501", "Keyword is too long (" ++ toString (n.endLine - n.line) ++ "/" ++ toString limit ++ ")",
    n.endLine, 1)

end Node

/-! ## What is found -/

namespace Check.Length

def longFinding (limit : Int) (n : Node) : Finding :=
  ⟨.tooLongKeyword, [.integer (span n), .integer limit], n.endLine, 1, [n.line, lastFilledLine n]⟩

private theorem onLength_longFinding (limit : Int) (n : Node) : OnLength (longFinding limit n) :=
  ⟨show RuleKey.tooLongKeyword ∈ _ by decide, span n, limit, rfl⟩

theorem entry_longFinding (limit : Int) (n : Node) :
    (longFinding limit n).entry = n.longEntry limit := by
  have hkey : RuleKey.tooLongKeyword ∈ Checker.lengths.keys := by decide
  have hmessage := (fills_lengths (f := longFinding limit n) hkey rfl).2
  have hheading : String.ofList (heading .tooLongKeyword) = "Keyword is too long (" := by decide
  have hrule : (longFinding limit n).rule = .tooLongKeyword := rfl
  rw [hrule, hheading] at hmessage
  rw [Finding.entry, hmessage]
  rfl

theorem longKeywords_inKeyword (vs : Values) (n : Node) :
    RuleKey.tooLongKeyword.among (inKeyword vs n) =
      if longest vs < n.endLine - n.line then [longFinding (longest vs) n] else [] := by
  have harguments : RuleKey.tooLongKeyword.among (tooManyArguments vs n) = [] := by
    apply RuleKey.among_eq_nil
    intro f hf
    have hrule : f.rule = .tooManyArguments := rule_of_mem_ite hf
    rw [hrule]
    decide
  rw [inKeyword_eq, RuleKey.among_append, harguments, List.nil_append, verdict]
  change RuleKey.tooLongKeyword.among (if longest vs < n.endLine - n.line then
    [longFinding (longest vs) n] else callVerdict vs n) = _
  split
  · rfl
  · apply RuleKey.among_eq_nil
    intro f hf
    have hlater : RuleKey.tooLongKeyword ∉ leftOut .tooLongKeyword := by decide
    exact fun hrule => hlater (hrule ▸ rule_callVerdict n vs f hf)

private theorem longKeywords_inTestCase (vs : Values) (n : Node) :
    RuleKey.tooLongKeyword.among (inTestCase vs n) = [] := by
  apply RuleKey.among_eq_nil
  intro f hf
  have hrule : f.rule = .tooLongTestCase ∨ f.rule = .tooManyCallsInTestCase :=
    (List.mem_append.mp hf).imp rule_of_mem_ite rule_of_mem_ite
  rcases hrule with hrule | hrule <;> rw [hrule] <;> decide

/-- On the length of a keyword is found what is due. -/
theorem longKeywords_inDefinition {vs : Values} {n : Node} {findings : List Finding}
    (hkind : n.isBlock .testCase = true ∨ n.isBlock .keyword = true)
    (h : inDefinition vs n = .ok findings) :
    RuleKey.tooLongKeyword.among findings =
      if n.IsTooLong (longest vs) then [longFinding (longest vs) n] else [] := by
  by_cases htest : n.isBlock .testCase = true
  · have hnot : ¬ n.IsTooLong (longest vs) := by
      intro hlong
      have hkeyword := hlong.keyword
      cases n <;> simp_all [Node.isBlock, Node.isBlockWith]
    rw [inDefinition, if_pos htest] at h
    rw [← Except.ok.inj h, longKeywords_inTestCase, if_neg hnot]
  · rw [inDefinition, if_neg htest] at h
    obtain ⟨name, hname, h⟩ := exists_of_bind_eq_ok h
    have hsome : n.name? = some name := by
      unfold requiredName at hname
      split at hname
      · next hcase => rw [hcase, Except.ok.inj hname]
      · cases hname
    have hlong : n.IsTooLong (longest vs) ↔
        ¬ isCommentedOut name = true ∧ longest vs < n.endLine - n.line := by
      constructor
      · intro hlong
        have hjudged := hlong.judged
        rw [hsome] at hjudged
        exact ⟨Bool.eq_false_iff.mp hjudged, hlong.long⟩
      · rintro ⟨hjudged, hspan⟩
        exact ⟨hkind.resolve_left htest, by rw [hsome]; exact Bool.eq_false_iff.mpr hjudged, hspan⟩
    rw [← Except.ok.inj h]
    by_cases hcomment : isCommentedOut name = true
    · rw [if_pos hcomment, if_neg fun h => (hlong.mp h).1 hcomment]
      rfl
    · rw [if_neg hcomment, longKeywords_inKeyword]
      by_cases hspan : longest vs < n.endLine - n.line
      · rw [if_pos hspan, if_pos (hlong.mpr ⟨hcomment, hspan⟩)]
      · rw [if_neg hspan, if_neg fun h => hspan (hlong.mp h).2]

theorem longKeywords_check {vs : Values} {d : Document} {findings : List Finding}
    (h : check vs d = .ok findings) :
    RuleKey.tooLongKeyword.among findings =
      (d.definitions.filter (·.IsTooLong (longest vs))).map (longFinding (longest vs)) := by
  obtain ⟨inside, hinside, h⟩ := exists_of_bind_eq_ok h
  have hfile : RuleKey.tooLongKeyword.among (inFile vs d) = [] := by
    apply RuleKey.among_eq_nil
    intro f hf
    have hrule : f.rule = .fileTooLong := rule_of_mem_ite hf
    rw [hrule]
    decide
  rw [← Except.ok.inj h, RuleKey.among_append, hfile, List.nil_append,
    RuleKey.among_gather (fun n hn here hhere => longKeywords_inDefinition (isBlock_of_mem_definitions hn) hhere)
      hinside, flatMap_ite_singleton]

end Check.Length

/-! ## What is reported -/

namespace Disabler

theorem OnlyLists.not_wholeFile {lines : List (List Char)} {number : Int} {names : List String}
    (h : OnlyLists lines number '=' names) : ¬ (Disablers.ofLines lines).wholeFile = true := by
  intro hwhole
  have hlength : (1 : Int) ≤ lines.length := by
    obtain ⟨k, line, hk, -⟩ := h.here
    have := (List.getElem?_eq_some_iff.mp hk).1
    omega
  have hcovers := Disablers.coversLine_of_wholeFile hwhole (Int.le_refl 1) hlength
  rw [Disablers.coversLine_ofLines_iff, h.switchedOff_iff (by decide)] at hcovers
  exact h.rules.not_all hcovers.2

end Disabler

namespace Linter

variable {host : Host} {on : RuleKey → Bool} {t : Tuning} {memory : Memory} {subject : Subject}
  {issues : List Issue}

/-- The keywords that are too long are reported, unless a comment silences them. -/
theorem reported_tooLongKeyword (hon : on .tooLongKeyword = true)
    (hwhole : ¬ subject.content.disablers.wholeFile = true)
    (h : (check ⟨host, .tuned host on t, memory⟩ subject).1 = .ok issues) :
    (RuleKey.tooLongKeyword.reported issues).map Issue.entry =
      ((subject.document.definitions.filter (·.IsTooLong (Check.Length.longest (t.values .lengths)))).filter
        fun n => !subject.content.disablers.covers n.silencingLines "0501" "too-long-keyword").map
          (Node.longEntry (Check.Length.longest (t.values .lengths))) := by
  have hkey : RuleKey.tooLongKeyword ∈ Checker.lengths.keys := by decide
  have hreported : RuleKey.tooLongKeyword.reported issues =
      ((subject.document.definitions.filter (·.IsTooLong (Check.Length.longest (t.values .lengths)))).map
        (Check.Length.longFinding (Check.Length.longest (t.values .lengths)))).filterMap
          ((Checker.lengths.tuned host on t).issueOf? subject.fileName subject.content.disablers) := by
    rw [← issueOf?_tuned host on t memory hkey hwhole]
    refine reported_of_among hkey rfl (fun f hf => ?_) (fun findings hrun => ?_) h memory
    · obtain ⟨n, -, rfl⟩ := List.mem_map.mp hf
      rfl
    · exact Check.Length.longKeywords_check ((lengths_view ..).symm.trans hrun)
  rw [hreported]
  generalize Check.Length.longest (t.values .lengths) = limit
  generalize subject.document.definitions.filter (·.IsTooLong limit) = ns
  induction ns with
  | nil => rfl
  | cons n ns ih =>
    rw [List.map_cons, List.filterMap_cons]
    cases hcovers : subject.content.disablers.covers n.silencingLines "0501" "too-long-keyword" with
    | true =>
      have hdropped : (Checker.lengths.tuned host on t).issueOf? subject.fileName
          subject.content.disablers (Check.Length.longFinding limit n) = none :=
        Checker.issueOf?_of_covered hcovers
      rw [hdropped, List.filter_cons_of_neg (by simp [hcovers])]
      exact ih
    | false =>
      obtain ⟨hrule, count, bound, hargs⟩ := Check.Length.onLength_longFinding limit n
      have hkept : (Checker.lengths.tuned host on t).issueOf? subject.fileName
          subject.content.disablers (Check.Length.longFinding limit n) = some _ :=
        Checker.issueOf?_of_not_covered hkey (Check.Length.fills_lengths hrule hargs).1 hon hcovers
      rw [hkept, List.filter_cons_of_pos (by simp [hcovers]), List.map_cons, List.map_cons, ih,
        ← Check.Length.entry_longFinding]
      rfl

end Linter

namespace Options

open Disabler

/-- In a file whose only disabler lists too-long-keyword (0501) behind a statement, the keywords that are too
long are reported, but for those where it is on the last line, on the first line, or where the last part of
the body starts that is no empty line. The line where this part ends is one of them exactly if no empty lines
follow it or it takes one line. -/
theorem long_keyword_silenced_iff (o : Options) {host : Host} {notes : List String} {s : Setup}
    (h : o.setup host = (notes, .ok s)) (hon : s.linter.registry.enables "0501" = true)
    (memory : Memory) {subject : Subject} {lines : List (List Char)}
    (hlines : subject.content.disablers = .ofLines lines) {number : Int} {names : List String}
    (honly : OnlyLists lines number '=' names) (hnamed : "0501" ∈ names ∨ "too-long-keyword" ∈ names)
    {issues : List Issue} (hissues : ((s.linter.withMemory memory).check subject).1 = .ok issues) :
    (RuleKey.tooLongKeyword.reported issues).map Issue.entry =
        ((subject.document.definitions.filter
          (·.IsTooLong (s.linter.bound .tooLongKeyword "max_len"))).filter
            (number ∉ ·.silencingLines)).map
              (Node.longEntry (s.linter.bound .tooLongKeyword "max_len")) ∧
      ∀ n : Node, n.InOrder → (∃ m ∈ n.body, m.isStatement .emptyLine = false) →
        ∃ part before blanks, n.FilledUpTo part before blanks ∧
          (∀ st ∈ part.statements, st.endLine ≤ part.endLine) ∧
          (part.endLine ∈ n.silencingLines ↔ blanks = [] ∨ part.line = part.endLine) := by
  have hkey : RuleKey.tooLongKeyword ∈ Checker.lengths.keys := by decide
  constructor
  · obtain ⟨-, t, -, hlinter⟩ := setup_ok_iff.mp h
    rw [hlinter] at hissues ⊢
    have hbound : Linter.bound ⟨host, .tuned host o.selection.picks t, .blank⟩ .tooLongKeyword
        "max_len" = Check.Length.longest (t.values .lengths) := by
      rw [Linter.bound, Linter.valuesFor_tuned host _ t .blank hkey]
      rfl
    have hcovers (n : Node) : (!(Disablers.ofLines lines).covers n.silencingLines "0501"
        "too-long-keyword") = decide (number ∉ n.silencingLines) := by
      rw [Bool.eq_iff_iff, Bool.not_eq_true', Bool.eq_false_iff, ne_eq,
        Disablers.covers_ofLines_of_onlyLists honly (Or.inr rfl), decide_eq_true_eq,
        and_iff_left (Or.inr hnamed)]
    have hpicks : o.selection.picks .tooLongKeyword = true := (enables_eq_picks h _).symm.trans hon
    rw [Linter.reported_tooLongKeyword hpicks (hlines ▸ honly.not_wholeFile) hissues, hbound, hlines]
    exact congrArg _ (List.filter_congr fun n _ => hcovers n)
  · intro n horder hfilled
    obtain ⟨part, before, blanks, hpart⟩ := Node.exists_filledUpTo hfilled
    exact ⟨part, before, blanks, hpart, hpart.endLine_le horder,
      hpart.endLine_mem_silencingLines_iff horder⟩

end Options

def Node.callOfTwoLines : Node :=
  .leaf ⟨.keywordCall, [⟨.separator, "    ", 3, 0⟩, ⟨.keyword, "Log", 3, 4⟩, ⟨.eol, "\n", 3, 7⟩,
    ⟨.separator, "    ", 4, 0⟩, ⟨.continuation, "...", 4, 4⟩, ⟨.separator, "    ", 4, 7⟩,
    ⟨.argument, "1", 4, 11⟩, ⟨.separator, "  ", 4, 12⟩, ⟨.comment, "# robocop: disable=0501", 4, 14⟩,
    ⟨.eol, "\n", 4, 37⟩], []⟩

def Node.endingInCall (bare : Bool) : Node :=
  .block .keyword ⟨.keywordName, [⟨.keywordName, "Long Keyword", 2, 0⟩, ⟨.eol, "\n", 2, 12⟩], []⟩
    (if bare then [callOfTwoLines, .leaf ⟨.emptyLine, [⟨.eol, "\n", 5, 0⟩], []⟩] else [callOfTwoLines])
    none none []

def Subject.endingInCall (bare : Bool) : Subject :=
  ⟨"a.robot", .text (("*** Keywords ***\nLong Keyword\n    Log\n" ++
      "    ...    1  # robocop: disable=0501\n" ++ if bare then "\n" else "").toList),
    ⟨none, [⟨.keywords, some ⟨.sectionHeader, [⟨.keywordHeader, "*** Keywords ***", 1, 0⟩], []⟩,
      [.endingInCall bare]⟩]⟩⟩

def Tuning.oneLine : Tuning :=
  Tuning.start.assign .lengths (RuleKey.tooLongKeyword.slot "max_len") (.integer 1)

theorem Node.inOrder_endingInCall (bare : Bool) : (endingInCall bare).InOrder := by
  refine ⟨⟨rfl, rfl⟩, ?_, ?_⟩ <;> cases bare <;> decide

theorem Disabler.onlyLists_endingInCall (bare : Bool) {lines : List (List Char)}
    (h : lines = ["*** Keywords ***".toList, "Long Keyword".toList, "    Log".toList] ++
      lineWithList "    ...    1  ".toList '=' ["0501"] :: if bare then [[]] else []) :
    OnlyLists lines 4 '=' ["0501"] := by
  rw [h]
  refine onlyLists_of_split (isRuleList_of_all (by decide) (by decide) (by decide))
    (by decide) ⟨'1', by decide, by decide⟩ (by decide) ?_
  cases bare <;> decide

theorem Subject.lines_endingInCall (bare : Bool) :
    ∃ lines, (endingInCall bare).content.disablers = .ofLines lines ∧
      Disabler.OnlyLists lines 4 '=' ["0501"] := by
  refine ⟨_, rfl, Disabler.onlyLists_endingInCall bare ?_⟩
  cases bare <;> decide +kernel

theorem Linter.marks?_endingInCall (bare : Bool) :
    marks? ⟨.plain, .tuned .plain RuleKey.anyRule .oneLine, .blank⟩ (.endingInCall bare) =
      some (if bare then [("0203", 1), ("0201", 2), ("0501", 5), ("0913", 1), ("1010", 6)]
        else [("0203", 1), ("0201", 2), ("0913", 1)]) := by
  have hoff : (Subject.endingInCall bare).content.disablers =
      ⟨[("0501", ⟨none, [4], []⟩)], false, true⟩ := by cases bare <;> decide +kernel
  simp only [marks?, check, Subject.job, hoff]
  cases bare <;> decide +kernel

namespace Options

def oneLine : Options := { standard with settings := ["too-long-keyword:max_len:1"] }

theorem setup_oneLine :
    oneLine.setup .plain =
      ([], .ok ⟨⟨.plain, .tuned .plain RuleKey.anyRule .oneLine, .blank⟩, .ofNames ["return_status"]⟩) := by
  rw [setup_ok_iff, ← Selection.picks_everything]
  exact ⟨⟨.everything, Selection.validate_everything ..⟩, .oneLine, rfl, rfl⟩

/-- A comment at the end of the call silences the report if the keyword ends there. -/
theorem long_keyword_silenced_iff_endingInCall :
    ∃ (s : Setup) (lines : List (List Char)) (issues : List Issue),
      oneLine.setup .plain = ([], .ok s) ∧ s.linter.registry.enables "0501" = true ∧
      (Subject.endingInCall false).content.disablers = .ofLines lines ∧
      Disabler.OnlyLists lines 4 '=' ["0501"] ∧
      (s.linter.check (.endingInCall false)).1 = .ok issues ∧
      RuleKey.tooLongKeyword.reported issues = [] ∧
      ∃ part before blanks, (Node.endingInCall false).FilledUpTo part before blanks ∧
        (∀ st ∈ part.statements, st.endLine ≤ part.endLine) ∧
        (part.endLine ∈ (Node.endingInCall false).silencingLines ↔
          blanks = [] ∨ part.line = part.endLine) := by
  have hsetup := setup_oneLine
  obtain ⟨lines, hlines, honly⟩ := Subject.lines_endingInCall false
  obtain ⟨issues, hissues, -⟩ := Linter.check_of_marks? (Linter.marks?_endingInCall false)
  have hon := Registry.enables_tuned .plain RuleKey.anyRule .oneLine .tooLongKeyword
  obtain ⟨hreported, hends⟩ := long_keyword_silenced_iff oneLine hsetup hon .blank hlines honly
    (Or.inl List.mem_cons_self) hissues
  refine ⟨_, lines, issues, hsetup, hon, hlines, honly, hissues, ?_,
    hends _ (Node.inOrder_endingInCall false) ⟨.callOfTwoLines, List.mem_cons_self, rfl⟩⟩
  rw [← List.map_eq_nil_iff (f := Issue.entry), hreported, List.map_eq_nil_iff, List.filter_filter]
  decide +kernel

/-- The same comment does not silence it if an empty line follows. -/
theorem long_keyword_reported_past_comment :
    ∃ (s : Setup) (lines : List (List Char)) (issues : List Issue),
      oneLine.setup .plain = ([], .ok s) ∧
      (Subject.endingInCall true).content.disablers = .ofLines lines ∧
      Disabler.OnlyLists lines 4 '=' ["0501"] ∧
      (Node.endingInCall true).InOrder ∧
      (∃ blanks, (Node.endingInCall true).FilledUpTo .callOfTwoLines [] blanks) ∧
      Node.callOfTwoLines.endLine = 4 ∧
      (s.linter.check (.endingInCall true)).1 = .ok issues ∧
      (RuleKey.tooLongKeyword.reported issues).map (fun i => (i.ruleId, i.line)) = [("0501", 5)] := by
  obtain ⟨lines, hlines, honly⟩ := Subject.lines_endingInCall true
  obtain ⟨issues, hissues, hmarks⟩ := Linter.check_of_marks? (Linter.marks?_endingInCall true)
  refine ⟨_, lines, issues, setup_oneLine, hlines, honly, Node.inOrder_endingInCall true,
    ⟨_, rfl, rfl, by decide⟩, by decide, hissues, ?_⟩
  rw [RuleKey.map_reported, hmarks]
  decide

end Options

end SuiteLint
