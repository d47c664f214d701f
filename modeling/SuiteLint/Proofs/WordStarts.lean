import SuiteLint.Proofs.NameTokens
import SuiteLint.Proofs.SuiteTotals

/-!
# Where the words of a name start

A word starts with a letter or digit at the front of the last part of a keyword's name, or behind a character
that is neither. By `each_word_capitalized` a name is reported (0302) exactly if some word starts with a small
letter, and by `first_word_capitalized`, if the part itself does.
-/

namespace SuiteLint

/-! ## One finding at most -/

section

variable {key : RuleKey} {p : Prop} [Decidable p] {f : Finding}

theorem RuleKey.among_ite_of_eq (h : f.rule = key) :
    key.among (if p then [f] else []) = if p then [f] else [] := by
  rw [among, List.filter_eq_self]
  exact fun g hg => decide_eq_true ((rule_of_mem_ite hg).trans h)

theorem RuleKey.among_ite_of_ne (h : f.rule ≠ key) : key.among (if p then [f] else []) = [] :=
  among_eq_nil fun _ hg => (rule_of_mem_ite hg).symm ▸ h

end

namespace Check.KeywordName

open Text

/-! ## Words and their places -/

def isWordPart (c : Char) : Bool := isWord c && c != '_'

/-- At a place stands a small letter that starts a word: nothing is before it, or no part of a word. -/
def StartsSmallAt (s : List Char) (i : Nat) : Prop :=
  ∃ c, s[i]? = some c ∧ isWordPart c = true ∧ isLower c = true ∧
    (i = 0 ∨ ∃ d, s[i - 1]? = some d ∧ isWordPart d = false)

theorem startsSmallAt_zero_iff {c : Char} {s : List Char} :
    StartsSmallAt (c :: s) 0 ↔ isWordPart c = true ∧ isLower c = true := by
  simp [StartsSmallAt]

private theorem startsSmallAt_succ_of_break {c : Char} (hc : isWordPart c = false) {s : List Char} {i : Nat} :
    StartsSmallAt (c :: s) (i + 1) ↔ StartsSmallAt s i := by
  cases i with
  | zero => simp [StartsSmallAt, hc]
  | succ i => simp [StartsSmallAt]

private theorem startsSmallAt_succ_of_part {c : Char} (hc : isWordPart c = true) {s : List Char} {i : Nat} :
    StartsSmallAt (c :: s) (i + 1) ↔ 0 < i ∧ StartsSmallAt s i := by
  cases i with
  | zero => simp [StartsSmallAt, hc]
  | succ i => simp [StartsSmallAt]

private theorem words_nil : words [] = [[]] := rfl

theorem words_cons_of_break {c : Char} (hc : isWordPart c = false) (s : List Char) :
    words (c :: s) = [] :: words s := by
  have hblank : (if isWord c && c != '_' then c else ' ') = ' ' := if_neg (by simpa [isWordPart] using hc)
  rw [words, List.map_cons, hblank, splitAt, if_pos rfl, words]

theorem words_cons_of_part {c : Char} (hc : isWordPart c = true) {s word : List Char}
    {more : List (List Char)} (h : words s = word :: more) : words (c :: s) = (c :: word) :: more := by
  have hself : (if isWord c && c != '_' then c else ' ') = c := if_pos hc
  have hne : c ≠ ' ' := by
    rintro rfl
    exact absurd hc (by decide)
  rw [words] at h
  rw [words, List.map_cons, hself, splitAt, if_neg hne, h]

theorem exists_words_eq_cons (s : List Char) : ∃ word more, words s = word :: more := by
  have hlength : (words s).length ≠ 0 := by
    rw [words, length_splitAt]
    exact Nat.succ_ne_zero _
  exact List.exists_cons_of_length_pos (Nat.pos_of_ne_zero hlength)

/-- The words that start with small letters, and those of them behind the first word, by their places. -/
theorem any_words_iff (s : List Char) :
    ((words s).any startsSmall = true ↔ ∃ i, StartsSmallAt s i) ∧
      ((words s).tail.any startsSmall = true ↔ ∃ i, 0 < i ∧ StartsSmallAt s i) := by
  induction s with
  | nil => simp [words_nil, startsSmall, StartsSmallAt]
  | cons c s ih =>
    obtain ⟨hall, htail⟩ := ih
    have hsplit : (∃ i, StartsSmallAt (c :: s) i) ↔
        StartsSmallAt (c :: s) 0 ∨ ∃ i, StartsSmallAt (c :: s) (i + 1) := by
      rw [← Nat.or_exists_add_one]
    have hpos : (∃ i, 0 < i ∧ StartsSmallAt (c :: s) i) ↔ ∃ i, StartsSmallAt (c :: s) (i + 1) := by
      rw [← Nat.or_exists_add_one]
      simp
    rw [hsplit, hpos, startsSmallAt_zero_iff]
    cases hc : isWordPart c with
    | false =>
      simp only [words_cons_of_break hc, startsSmallAt_succ_of_break hc, List.any_cons, startsSmall,
        Bool.false_or, Bool.false_eq_true, false_and, false_or, List.tail_cons]
      exact ⟨hall, hall⟩
    | true =>
      obtain ⟨word, more, hwords⟩ := exists_words_eq_cons s
      rw [hwords, List.tail_cons] at htail
      simp only [words_cons_of_part hc hwords, startsSmallAt_succ_of_part hc, List.any_cons, startsSmall,
        Bool.or_eq_true, true_and, List.tail_cons]
      exact ⟨or_congr Iff.rfl htail, htail⟩

theorem any_take_words_iff (s : List Char) :
    ((words s).take 1).any startsSmall = true ↔ StartsSmallAt s 0 := by
  cases s with
  | nil => simp [words_nil, startsSmall, StartsSmallAt]
  | cons c s =>
    rw [startsSmallAt_zero_iff]
    cases hc : isWordPart c with
    | false => simp [words_cons_of_break hc, startsSmall]
    | true =>
      obtain ⟨word, more, hwords⟩ := exists_words_eq_cons s
      simp [words_cons_of_part hc hwords, startsSmall]

def BreaksConvention (convention : String) (s : List Char) : Prop :=
  if convention = "first_word_capitalized" then StartsSmallAt s 0 else ∃ i, StartsSmallAt s i

theorem breaksConvention_iff (convention : String) (s : List Char) :
    (if convention = "first_word_capitalized" then (words s).take 1 else words s).any startsSmall = true ↔
      BreaksConvention convention s := by
  unfold BreaksConvention
  split
  · exact any_take_words_iff s
  · exact (any_words_iff s).1

instance (convention : String) (s : List Char) : Decidable (BreaksConvention convention s) :=
  decidable_of_iff _ (breaksConvention_iff convention s)

/-! ## The part of a name that is judged -/

def IsLastPart (name : String) (s : List Char) : Prop :=
  ∃ front part, Name.removeVariables name.toList = front ++ part ∧
    (front = [] ∨ front.getLast? = some '.') ∧ '.' ∉ part ∧ s = part.filter (· != '\'')

theorem exists_getLast_splitAt (sep : Char) (s : List Char) :
    ∃ front part, s = front ++ part ∧ (front = [] ∨ front.getLast? = some sep) ∧ sep ∉ part ∧
      (splitAt sep s).getLast? = some part := by
  induction s with
  | nil => exact ⟨[], [], rfl, Or.inl rfl, List.not_mem_nil, rfl⟩
  | cons c s ih =>
    by_cases hnone : sep ∉ c :: s
    · exact ⟨[], c :: s, rfl, Or.inl rfl, hnone, by rw [splitAt_of_not_mem hnone]; rfl⟩
    · obtain ⟨front, part, hs, hfront, hpart, hlast⟩ := ih
      obtain ⟨piece, pieces, hpieces⟩ : ∃ piece pieces, splitAt sep s = piece :: pieces :=
        List.exists_cons_of_ne_nil fun hnil => by simp [hnil] at hlast
      by_cases hc : c = sep
      · refine ⟨c :: front, part, by rw [hs]; rfl, Or.inr ?_, hpart, ?_⟩
        · rcases hfront with rfl | hfront
          · rw [hc]
            rfl
          · rw [List.getLast?_cons, hfront]
            rfl
        · rw [splitAt, if_pos hc, List.getLast?_cons, hlast]
          rfl
      · -- A separator is in the rest, so the last piece is not the one that the character goes to.
        have hsep : sep ∈ s := (List.mem_cons.mp (not_not.mp hnone)).resolve_left (Ne.symm hc)
        have hlength := length_splitAt sep s
        have hcount := List.count_pos_iff.mpr hsep
        rw [hpieces, List.length_cons] at hlength
        obtain ⟨next, more, rfl⟩ := List.exists_cons_of_length_pos (show 0 < pieces.length by omega)
        have hsome : front ≠ [] := by
          rintro rfl
          rw [List.nil_append] at hs
          exact hpart (hs ▸ hsep)
        refine ⟨c :: front, part, by rw [hs]; rfl, Or.inr ?_, hpart, ?_⟩
        · rw [List.getLast?_cons, hfront.resolve_left hsome]
          rfl
        · rw [splitAt, if_neg hc, hpieces, ← hlast, hpieces]
          rfl

private theorem isLastPart_bareName (name : String) : IsLastPart name (bareName name) := by
  obtain ⟨front, part, hname, hfront, hpart, hlast⟩ :=
    exists_getLast_splitAt '.' (Name.removeVariables name.toList)
  refine ⟨front, part, hname, hfront, hpart, ?_⟩
  rw [bareName, hlast, Option.getD_some, without]

/-! ## The findings on words -/

/-- A name that no earlier check puts aside: it is given, not commented out and no slash, and it is no
reserved word unless it is Run Keyword If. -/
def ReachesWords (modern : Bool) (name : String) : Prop :=
  name ≠ "" ∧ isCommentedOut name = false ∧ name ≠ "/" ∧
    (Name.normalized name = "runkeywordif" ∨
      (reservedWords modern).lookup (String.ofList (lower name.toList)) = none)

instance (modern : Bool) (name : String) : Decidable (ReachesWords modern name) :=
  inferInstanceAs (Decidable (_ ∧ _))

private theorem reachesWords_iff (modern : Bool) (name : String) :
    ReachesWords modern name ↔ (name.isEmpty || isCommentedOut name || decide (name = "/")) = false ∧
      (Name.normalized name = "runkeywordif" ∨
        (reservedWords modern).lookup (String.ofList (lower name.toList)) = none) := by
  simp [ReachesWords, and_assoc]

def wordRules : List RuleKey := [.wrongCaseInKeywordName, .underscoreInKeywordName]

section

variable {modern : Bool} {convention name : String} {n : Node} {findings : List Finding} {key : RuleKey}

theorem ne_of_mem_wordRules (hkey : key ∈ wordRules) :
    RuleKey.keywordNameIsReservedWord ≠ key ∧ RuleKey.bddWithoutKeywordCall ≠ key := by
  constructor <;> rintro rfl <;> exact absurd hkey (by decide)

private theorem among_branches (hkey : key ∈ wordRules) (h : branches n = .ok findings) :
    key.among findings = [] := by
  obtain ⟨st, -, hfindings⟩ := exists_of_bind_eq_ok h
  apply RuleKey.among_eq_nil
  rw [← Except.ok.inj hfindings, List.forall_mem_map]
  exact fun t _ => (ne_of_mem_wordRules hkey).1

theorem among_story (hkey : key ∈ wordRules) (h : story modern name n = .ok findings) :
    key.among findings = [] := by
  apply RuleKey.among_eq_nil
  unfold story at h
  split at h
  · obtain ⟨st, -, hfindings⟩ := exists_of_bind_eq_ok h
    rw [← Except.ok.inj hfindings, List.forall_mem_singleton]
    exact (ne_of_mem_wordRules hkey).2
  · rw [← Except.ok.inj h]
    exact List.forall_mem_nil _

/-- On words, a name that reaches their check is reported for its spelling only, and no other is. -/
theorem among_judge (hkey : key ∈ wordRules) (h : judge modern convention name n = .ok findings) :
    key.among findings =
      if ReachesWords modern name then key.among (spelling convention name n) else [] := by
  simp only [reachesWords_iff]
  unfold judge at h
  split at h
  · next hskip =>
    rw [if_neg (fun hreach => by simp [hskip] at hreach), ← Except.ok.inj h]
    rfl
  · next hskip =>
    rw [Bool.not_eq_true] at hskip
    split at h
    · next hcondition =>
      obtain ⟨others, hothers, h⟩ := exists_of_bind_eq_ok h
      obtain ⟨stories, hstories, h⟩ := exists_of_bind_eq_ok h
      rw [if_pos ⟨hskip, Or.inl hcondition⟩, ← Except.ok.inj h, RuleKey.among_append,
        RuleKey.among_append, among_branches hkey hothers, among_story hkey hstories]
      rfl
    · next hcondition =>
      split at h
      · next marked hmarked =>
        rw [if_neg (fun hreach => by simp [hcondition, hmarked] at hreach), ← Except.ok.inj h]
        exact RuleKey.among_eq_nil (List.forall_mem_singleton.mpr (ne_of_mem_wordRules hkey).1)
      · next hfree =>
        obtain ⟨stories, hstories, h⟩ := exists_of_bind_eq_ok h
        rw [if_pos ⟨hskip, Or.inr hfree⟩, ← Except.ok.inj h, RuleKey.among_append,
          among_story hkey hstories]
        rfl

private theorem exists_judge (hplace : NeedsTokens name → n.statement? ≠ none) :
    ∃ findings, judge modern convention name n = .ok findings := by
  by_cases hneeds : NeedsTokens name
  · cases n with
    | leaf st => exact exists_judge_leaf modern convention name st
    | block => exact absurd rfl (hplace hneeds)
  · exact exists_judge_of_not_needsTokens modern convention hneeds n

private theorem among_spelling_wrongCase : RuleKey.wrongCaseInKeywordName.among (spelling convention name n) =
    if BreaksConvention convention (bareName name)
      then [found .wrongCaseInKeywordName [] (anchor n.line) 1] else [] := by
  simp only [spelling, RuleKey.among_append, breaksConvention_iff]
  have hother : RuleKey.underscoreInKeywordName ≠ .wrongCaseInKeywordName := by decide
  rw [RuleKey.among_ite_of_ne (f := found .underscoreInKeywordName [] _ _) hother, List.nil_append]
  exact RuleKey.among_ite_of_eq rfl

private theorem among_spelling_underscore : RuleKey.underscoreInKeywordName.among (spelling convention name n) =
    if '_' ∈ bareName name then [found .underscoreInKeywordName [] (anchor n.line) 1] else [] := by
  simp only [spelling, RuleKey.among_append, List.contains_iff_mem]
  have hother : RuleKey.wrongCaseInKeywordName ≠ .underscoreInKeywordName := by decide
  rw [RuleKey.among_ite_of_ne (f := found .wrongCaseInKeywordName [] _ _) hother, List.append_nil]
  exact RuleKey.among_ite_of_eq rfl

end

end Check.KeywordName

def Node.keywordName : Node → String
  | .leaf s =>
    if Check.KeywordName.isSetupOrTeardown s.kind then s.name?.getD ""
    else if s.kind = .keywordCall then s.keyword?.getD "" else ""
  | .block .keyword header .. => header.name?.getD ""
  | .block .. => ""

namespace Check.KeywordName

variable {modern : Bool} {convention : String} {n : Node} {findings : List Finding} {key : RuleKey}

/-- A node is judged by the name of its keyword; without one, only its emptiness and its branches are
reported. -/
theorem inNode_cases (n : Node) : inNode modern convention n = judge modern convention n.keywordName n ∨
    n.keywordName = "" ∧ ∃ findings, inNode modern convention n = .ok findings ∧
      ∀ f ∈ findings, f.rule = .elseNotUpperCase ∨ f.rule = .keywordNameIsEmpty := by
  cases n with
  | leaf st =>
    left
    simp only [inNode, Node.keywordName]
    split
    · rfl
    · split <;> rfl
  | block kind header body orelse close errors =>
    cases kind with
    | keyword =>
      by_cases hname : (header.name?.getD "").isEmpty = true
      · refine Or.inr ⟨String.isEmpty_iff.mp hname, _, if_pos hname, ?_⟩
        exact List.forall_mem_singleton.mpr (Or.inr rfl)
      · exact Or.inl (if_neg hname)
    | if_ =>
      refine Or.inr ⟨rfl, _, rfl, ?_⟩
      rw [inCondition, List.forall_mem_flatMap]
      intro m _
      split
      · exact fun f hf => Or.inl (rule_of_mem_ite hf)
      · exact List.forall_mem_nil _
    | _ => exact Or.inl rfl

theorem among_inNode (hkey : key ∈ wordRules) (h : inNode modern convention n = .ok findings) :
    key.among findings = if ReachesWords modern n.keywordName
      then key.among (spelling convention n.keywordName n) else [] := by
  rcases inNode_cases n with hjudge | ⟨hname, others, hothers, hrules⟩
  · exact among_judge hkey (hjudge.symm.trans h)
  · have hunnamed : ¬ ReachesWords modern n.keywordName := fun hreach => hreach.1 hname
    rw [if_neg hunnamed, ← Except.ok.inj (hothers.symm.trans h)]
    apply RuleKey.among_eq_nil
    rintro f hf rfl
    rcases hrules f hf with hrule | hrule <;> rw [hrule] at hkey <;> exact absurd hkey (by decide)

/-! ## What is reported -/

def caseEntry (n : Node) : String × String × Int × Int :=
  ("0302", "Keyword name should use title case", anchor n.line, 1)

def underscoreEntry (n : Node) : String × String × Int × Int :=
  ("0305", "Underscores in keyword name can be replaced with spaces", anchor n.line, 1)

private theorem entry_wrongCase (n : Node) :
    (found .wrongCaseInKeywordName [] (anchor n.line) 1).entry = caseEntry n := by
  rw [Finding.entry, Finding.message_of_plain (f := found .wrongCaseInKeywordName [] _ _) rfl rfl rfl]
  rfl

private theorem entry_underscore (n : Node) :
    (found .underscoreInKeywordName [] (anchor n.line) 1).entry = underscoreEntry n := by
  rw [Finding.entry, Finding.message_of_plain (f := found .underscoreInKeywordName [] _ _) rfl rfl rfl]
  rfl

private theorem entries_spelling_wrongCase (name : String) :
    (RuleKey.wrongCaseInKeywordName.among (spelling convention name n)).map Finding.entry =
      if BreaksConvention convention (bareName name) then [caseEntry n] else [] := by
  rw [among_spelling_wrongCase, apply_ite (List.map Finding.entry), List.map_singleton, entry_wrongCase]
  rfl

private theorem entries_spelling_underscore (name : String) :
    (RuleKey.underscoreInKeywordName.among (spelling convention name n)).map Finding.entry =
      if '_' ∈ bareName name then [underscoreEntry n] else [] := by
  rw [among_spelling_underscore, apply_ite (List.map Finding.entry), List.map_singleton, entry_underscore]
  rfl

theorem entries_gather {ns : List Node} {fault : String → Prop} [DecidablePred fault]
    {entry : Node → String × String × Int × Int} (hkey : key ∈ wordRules)
    (hspelling : ∀ name n, (key.among (spelling convention name n)).map Finding.entry =
      if fault name then [entry n] else [])
    (h : gather (inNode modern convention) ns = .ok findings) :
    (key.among findings).map Finding.entry =
      (ns.filter fun n => ReachesWords modern n.keywordName ∧ fault n.keywordName).map entry := by
  rw [RuleKey.among_gather (fun n _ here => among_inNode hkey) h, List.map_flatMap,
    ← flatMap_ite_singleton]
  apply List.flatMap_congr
  intro n _
  by_cases hreach : ReachesWords modern n.keywordName
  · simp only [hreach, if_true, true_and, hspelling]
  · simp only [hreach, if_false, false_and, List.map_nil]

end Check.KeywordName

namespace Options

open Check.KeywordName

/-- The case of a keyword's name is judged by the places of small letters, in the part behind the last dot. A
name that reaches the check of words is reported once under wrong-case-in-keyword-name (0302), exactly if that
part breaks the `convention`, and once under underscore-in-keyword-name (0305), exactly if it has some. On a
document where every definition can be judged, these reports are all there are, one for each keyword that is
defined or called and in the order of visiting. -/
theorem words_judged_by_place (o : Options) {host : Host} {notes : List String} {s : Setup}
    (h : o.setup host = (notes, .ok s)) (hcase : s.linter.registry.enables "0302" = true)
    (hunderscore : s.linter.registry.enables "0305" = true) (memory : Memory) :
    (∀ name, IsLastPart name (bareName name)) ∧
    (∀ name n, ReachesWords host.modern name → (NeedsTokens name → n.statement? ≠ none) →
      ∃ findings, judge host.modern s.linter.nameConvention name n = .ok findings ∧
        (RuleKey.wrongCaseInKeywordName.among findings).map Finding.entry =
          (if BreaksConvention s.linter.nameConvention (bareName name) then [caseEntry n] else []) ∧
        (RuleKey.underscoreInKeywordName.among findings).map Finding.entry =
          if '_' ∈ bareName name then [underscoreEntry n] else []) ∧
    ∀ subject, (∀ n ∈ subject.document.visited, ¬ n.LacksTokens) →
      ∃ issues, (s.linter.withMemory memory).scan .keywordNaming subject = .ok issues ∧
        (Issue.among [.wrongCaseInKeywordName] issues).map Issue.entry =
          (subject.document.visited.filter fun n => ReachesWords host.modern n.keywordName ∧
            BreaksConvention s.linter.nameConvention (bareName n.keywordName)).map caseEntry ∧
        (Issue.among [.underscoreInKeywordName] issues).map Issue.entry =
          (subject.document.visited.filter fun n => ReachesWords host.modern n.keywordName ∧
            '_' ∈ bareName n.keywordName).map underscoreEntry := by
  have hkeys : ∀ key ∈ wordRules, key ∈ Checker.keywordNaming.keys := by decide
  refine ⟨isLastPart_bareName, fun name n hreach hplace => ?_, fun subject hfit => ?_⟩
  · obtain ⟨findings, hfindings⟩ := exists_judge hplace
    refine ⟨findings, hfindings, ?_, ?_⟩
    · rw [among_judge (by decide) hfindings, if_pos hreach, entries_spelling_wrongCase]
    · rw [among_judge (by decide) hfindings, if_pos hreach, entries_spelling_underscore]
  · obtain ⟨findings, hfindings⟩ := (exists_gather_inNode_iff host.modern s.linter.nameConvention _).mpr hfit
    obtain ⟨issues, hissues, hentries⟩ := o.scan_each h memory
      (hkeys .wrongCaseInKeywordName (by decide)) hfindings fun f hf =>
        (forall_mem_gather (fun n _ here hhere => onName_inNode hhere) hfindings f hf).fills
    refine ⟨issues, hissues, ?_, ?_⟩
    · rw [hentries .wrongCaseInKeywordName (hkeys _ (by decide)) hcase]
      exact entries_gather (by decide) (fun name n => entries_spelling_wrongCase name) hfindings
    · rw [hentries .underscoreInKeywordName (hkeys _ (by decide)) hunderscore]
      exact entries_gather (by decide) (fun name n => entries_spelling_underscore name) hfindings

end Options

private theorem Linter.nameConvention_standard :
    Linter.nameConvention ⟨.plain, .tuned .plain Options.standard.selection.picks .start, .blank⟩ =
      "each_word_capitalized" := by
  rw [Linter.nameConvention,
    Linter.valuesFor_tuned .plain _ _ _ (show _ ∈ Checker.keywordNaming.keys by decide)]
  rfl

/-- A definition with dots, a variable, an apostrophe and underscores in its name; it calls a keyword with
capitals behind underscores, one with small letters behind a digit and an apostrophe, and a reserved word. -/
def Node.namedInParts : Node :=
  .definition "lib.Log_the $\x7bfirst name\x7dValue"
    [("Lib.Get__It", []), ("Don't Open 2nd", []), ("for", [])]

def Node.onCondition : Node := .leaf ⟨.keywordCall, [⟨.keyword, "run_Keyword If", 3, 4⟩], []⟩

namespace Options

open Check.KeywordName

theorem words_judged_by_place_namedInParts :
    ∃ (s : Setup) (issues : List Issue), standard.setup .plain = ([], .ok s) ∧
      s.linter.registry.enables "0302" = true ∧ s.linter.registry.enables "0305" = true ∧
      ReachesWords true "run_Keyword If" ∧ NeedsTokens "run_Keyword If" ∧
      (∃ findings, judge true s.linter.nameConvention "run_Keyword If" .onCondition = .ok findings ∧
        (RuleKey.wrongCaseInKeywordName.among findings).map Finding.entry = [caseEntry .onCondition]) ∧
      (∀ n ∈ (Subject.defining .namedInParts).document.visited, ¬ n.LacksTokens) ∧
      s.linter.scan .keywordNaming (.defining .namedInParts) = .ok issues ∧
      (Issue.among [.wrongCaseInKeywordName] issues).map Issue.entry =
        [("0302", "Keyword name should use title case", 2, 1)] ∧
      (Issue.among [.underscoreInKeywordName] issues).map Issue.entry =
        [("0305", "Underscores in keyword name can be replaced with spaces", 2, 1),
          ("0305", "Underscores in keyword name can be replaced with spaces", 3, 1)] := by
  have hsetup := setup_standard .plain
  have hcase := enables_standard hsetup .wrongCaseInKeywordName
  have hunderscore := enables_standard hsetup .underscoreInKeywordName
  have hfit : ∀ n ∈ (Subject.defining .namedInParts).document.visited, ¬ n.LacksTokens := by
    decide +kernel
  have hreach : ReachesWords true "run_Keyword If" := by decide +kernel
  obtain ⟨-, hname, hscan⟩ := words_judged_by_place standard hsetup hcase hunderscore .blank
  obtain ⟨findings, hfindings, hreported, -⟩ :=
    hname "run_Keyword If" .onCondition hreach fun _ => Option.some_ne_none _
  obtain ⟨issues, hissues, hcases, hunderscores⟩ := hscan (.defining .namedInParts) hfit
  rw [Linter.nameConvention_standard] at hcases hreported
  exact ⟨_, issues, hsetup, hcase, hunderscore, hreach, by decide +kernel,
    ⟨findings, hfindings, hreported.trans (if_pos (by decide +kernel))⟩, hfit, hissues,
    hcases.trans (by decide +kernel), hunderscores.trans (by decide +kernel)⟩

end Options

end SuiteLint
