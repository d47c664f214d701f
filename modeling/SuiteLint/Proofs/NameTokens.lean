import SuiteLint.Proofs.RuleReports
import SuiteLint.Proofs.VariableForms

/-!
# Names that are judged by tokens

Run Keyword If and the words Given, When, Then, And, But are judged by the tokens beside them, which a row has
and the definition of a keyword has not. So the check of names goes through exactly if no definition has such
a name.
-/

namespace SuiteLint

namespace Text

/-! ## The forms of a letter -/

/-- The characters that have a letter as their small form: the letter, its capital, and for the letter k
the sign of the kelvin. -/
def letterForms (letter : Char) : List Char :=
  if letter = 'k' then ['k', 'K', Char.ofNat 8490] else [letter, letter.toUpper]

def isSmallLetter (c : Char) : Bool := 97 ≤ c.toNat && c.toNat ≤ 122

def Spells (s word : List Char) : Prop := List.Forall₂ (fun c letter => c ∈ letterForms letter) s word

instance (s word : List Char) : Decidable (Spells s word) := inferInstanceAs (Decidable (List.Forall₂ ..))

theorem mem_range_of_isSmallLetter {c : Char} (h : isSmallLetter c = true) :
    c.toNat ∈ List.range' 97 26 := by
  simp only [isSmallLetter, Bool.and_eq_true, decide_eq_true_eq] at h
  rw [List.mem_range'_1]
  omega

theorem lowerChar_of_mem_letterForms {c letter : Char} (hletter : isSmallLetter letter = true)
    (h : c ∈ letterForms letter) : lowerChar c = [letter] ∧ c ≠ 'Σ' := by
  have hall : (List.range' 97 26).all (fun n => (letterForms (Char.ofNat n)).all fun c =>
      lowerChar c = [Char.ofNat n] ∧ c ≠ 'Σ') = true := by decide
  have hforms := List.all_eq_true.mp hall letter.toNat (mem_range_of_isSmallLetter hletter)
  rw [Char.ofNat_toNat] at hforms
  exact of_decide_eq_true (List.all_eq_true.mp hforms c h)

/-- Of the characters beyond ASCII, only the sign of the kelvin is moved to a letter. -/
theorem mem_letterForms_of_moved {c letter : Char} (hletter : isSmallLetter letter = true)
    (hfar : ¬ c.toNat < 128) (h : moved toLowerRuns c = letter) : c ∈ letterForms letter := by
  have hruns : ∀ r ∈ toLowerRuns, 122 < r.image ∨ r = ⟨⟨8490, 8490, 1⟩, 107⟩ := by decide +kernel
  simp only [isSmallLetter, Bool.and_eq_true, decide_eq_true_eq] at hletter
  unfold moved at h
  cases hfind : toLowerRuns.find? (·.run.has c.toNat) with
  | none =>
    simp only [hfind] at h
    rw [h] at hfar
    omega
  | some r =>
    simp only [hfind] at h
    rcases hruns r (List.mem_of_find?_eq_some hfind) with himage | rfl
    · have hcode := toNat_ofNat (r.image + (c.toNat - r.run.first))
      rw [h] at hcode
      omega
    · have hhas := List.find?_some hfind
      simp only [CodeRun.has, Bool.and_eq_true, decide_eq_true_eq] at hhas
      have hcode : c.toNat = 8490 := by omega
      have hc : c = Char.ofNat 8490 := by rw [← hcode, Char.ofNat_toNat]
      have hk : letter = 'k' := by
        rw [← h, hcode]
        rfl
      rw [hc, hk]
      decide

theorem mem_letterForms_of_lowerChar {c letter : Char} (hletter : isSmallLetter letter = true)
    (h : lowerChar c = [letter]) : c ∈ letterForms letter := by
  have hascii : ∀ n < 128, isSmallLetter (Char.ofNat n).toLower = true →
      Char.ofNat n ∈ letterForms (Char.ofNat n).toLower := by decide
  unfold lowerChar at h
  split at h
  · next hsmall =>
    have hmem := hascii c.toNat hsmall
    rw [Char.ofNat_toNat, (List.cons.inj h).1] at hmem
    exact hmem hletter
  · next hfar =>
    split at h
    · exact absurd (List.cons.inj h).2 (List.cons_ne_nil _ _)
    · exact mem_letterForms_of_moved hletter hfar (List.cons.inj h).1

theorem lowerChar_cases (c : Char) : (∃ d, lowerChar c = [d]) ∨ lowerChar c = ['i', Char.ofNat 775] := by
  unfold lowerChar
  split
  · exact Or.inl ⟨_, rfl⟩
  · split
    · exact Or.inr rfl
    · exact Or.inl ⟨_, rfl⟩

theorem lowerAfter_eq_iff {word : List Char} (hword : word.all isSmallLetter = true)
    (before s : List Char) : lowerAfter before s = word ↔ Spells s word := by
  induction s generalizing before word with
  | nil =>
    rw [lowerAfter, Spells, List.forall₂_nil_left_iff, eq_comm]
  | cons c s ih =>
    cases word with
    | nil =>
      have hsome : lowerAfter before (c :: s) ≠ [] := by
        rw [lowerAfter]
        split
        · exact List.cons_ne_nil _ _
        · rcases lowerChar_cases c with ⟨d, hd⟩ | hd <;> rw [hd] <;> exact List.cons_ne_nil _ _
      refine iff_of_false hsome fun h => ?_
      cases h
    | cons letter word =>
      rw [List.all_cons, Bool.and_eq_true] at hword
      rw [Spells, List.forall₂_cons, ← Spells, ← ih hword.2 (c :: before), lowerAfter]
      constructor
      · intro h
        by_cases hsigma : c = 'Σ'
        · -- A small sigma is no letter of the word.
          rw [if_pos hsigma] at h
          have hletter := (List.cons.inj h).1 ▸ hword.1
          split at hletter <;> exact absurd hletter (by decide)
        · rw [if_neg hsigma] at h
          rcases lowerChar_cases c with ⟨d, hd⟩ | hd
          · rw [hd, List.singleton_append, List.cons.injEq] at h
            exact ⟨mem_letterForms_of_lowerChar hword.1 (h.1 ▸ hd), h.2⟩
          · -- Nor is the dot that stands apart from its letter.
            rw [hd] at h
            cases word with
            | nil => exact absurd (List.cons.inj h).2 (List.cons_ne_nil _ _)
            | cons next word =>
              rw [List.all_cons, Bool.and_eq_true] at hword
              have hdot := (List.cons.inj (List.cons.inj h).2).1 ▸ hword.2.1
              exact absurd hdot (by decide)
      · rintro ⟨hform, hrest⟩
        obtain ⟨hlower, hsigma⟩ := lowerChar_of_mem_letterForms hword.1 hform
        rw [if_neg hsigma, hlower, hrest]
        rfl

/-- A text has a word of small letters as its small form exactly if it reads like the word. -/
theorem lower_eq_iff {word : List Char} (hword : word.all isSmallLetter = true) (s : List Char) :
    lower s = word ↔ Spells s word := lowerAfter_eq_iff hword [] s

theorem Spells.exists_letter {s word : List Char} (h : Spells s word) {c : Char} (hc : c ∈ s) :
    ∃ letter ∈ word, c ∈ letterForms letter := by
  induction h with
  | nil => cases hc
  | cons hform _ ih =>
    rcases List.mem_cons.mp hc with rfl | hc
    · exact ⟨_, List.mem_cons_self, hform⟩
    · obtain ⟨letter, hmem, hletter⟩ := ih hc
      exact ⟨letter, List.mem_cons_of_mem _ hmem, hletter⟩

private theorem Spells.not_mem {s word : List Char} (hword : word.all isSmallLetter = true) (h : Spells s word)
    {c : Char} (hc : ¬ ∃ letter, isSmallLetter letter = true ∧ lowerChar c = [letter]) : c ∉ s := by
  intro hmem
  obtain ⟨letter, hletter, hform⟩ := h.exists_letter hmem
  have hsmall := List.all_eq_true.mp hword letter hletter
  exact hc ⟨letter, hsmall, (lowerChar_of_mem_letterForms hsmall hform).1⟩

end Text

namespace Check.KeywordName

open Text

/-! ## The names -/

/-- A name that is judged by the tokens beside it: without blanks and underscores it reads like Run Keyword
If, or it reads like one of Given, When, Then, And, But. -/
def NeedsTokens (name : String) : Prop :=
  Spells (name.toList.filter fun c => c != ' ' && c != '_') "runkeywordif".toList ∨
    ∃ word ∈ storyWords, Spells name.toList word.toList

instance (name : String) : Decidable (NeedsTokens name) := inferInstanceAs (Decidable (_ ∨ _))

theorem isSmallLetter_condition : "runkeywordif".toList.all isSmallLetter = true := by decide

theorem isSmallLetter_storyWords : ∀ word ∈ storyWords, word.toList.all isSmallLetter = true := by
  decide

theorem normalized_eq_iff (name : String) :
    Name.normalized name = "runkeywordif" ↔
      Spells (name.toList.filter fun c => c != ' ' && c != '_') "runkeywordif".toList := by
  have hwithout : without '_' (without ' ' name.toList) =
      name.toList.filter fun c => c != ' ' && c != '_' := by
    rw [without, without, List.filter_filter]
    simp only [Bool.and_comm]
  rw [← lower_eq_iff isSmallLetter_condition, ← hwithout, ← String.toList_inj, Name.normalized,
    String.toList_ofList]
  rfl

theorem contains_storyWords_iff (name : String) :
    storyWords.contains (String.ofList (lower name.toList)) = true ↔
      ∃ word ∈ storyWords, Spells name.toList word.toList := by
  rw [List.contains_iff_mem]
  constructor
  · intro h
    refine ⟨_, h, (lower_eq_iff (isSmallLetter_storyWords _ h) _).mp ?_⟩
    rw [String.toList_ofList]
  · rintro ⟨word, hword, hspells⟩
    rwa [(lower_eq_iff (isSmallLetter_storyWords word hword) _).mpr hspells, String.ofList_toList]

/-- Such a name is no row that was commented out, and no slash. -/
theorem NeedsTokens.not_skipped {name : String} (h : NeedsTokens name) :
    (name.isEmpty || isCommentedOut name || decide (name = "/")) = false := by
  have hletters {c : Char} (hc : c ≠ ' ' ∧ c ≠ '_')
      (hnone : ¬ ∃ letter, isSmallLetter letter = true ∧ lowerChar c = [letter]) : c ∉ name.toList := by
    rcases h with h | ⟨word, hword, h⟩
    · intro hmem
      exact h.not_mem isSmallLetter_condition hnone (List.mem_filter.mpr ⟨hmem, by simpa using hc⟩)
    · exact h.not_mem (isSmallLetter_storyWords word hword) hnone
  have hother {c : Char} (hc : c ≠ ' ' ∧ c ≠ '_' ∧ lowerChar c = [c] ∧ isSmallLetter c = false) :
      c ∉ name.toList := by
    refine hletters ⟨hc.1, hc.2.1⟩ ?_
    rintro ⟨letter, hsmall, hlower⟩
    rw [hc.2.2.1, List.singleton_inj] at hlower
    rw [← hlower, hc.2.2.2] at hsmall
    cases hsmall
  have hcomment : isCommentedOut name = false := by
    have hnumber : '#' ∉ trimLeft name.toList := fun hmem =>
      hother (by decide) ((List.dropWhile_sublist _).subset hmem)
    unfold isCommentedOut
    split
    · next rest heq =>
      rw [heq] at hnumber
      exact absurd List.mem_cons_self hnumber
    · rfl
  have hslash : name ≠ "/" := by
    rintro rfl
    exact hother (show '/' ≠ ' ' ∧ '/' ≠ '_' ∧ lowerChar '/' = ['/'] ∧ isSmallLetter '/' = false by decide)
      (by decide)
  have hempty : name ≠ "" := by
    rintro rfl
    exact absurd h (by decide)
  simp [hcomment, hslash, hempty]

/-! ## The check of one node -/

section

variable (modern : Bool) (convention : String)

private theorem lookup_reservedWords {name : String}
    (h : storyWords.contains (String.ofList (lower name.toList)) = true) :
    (reservedWords modern).lookup (String.ofList (lower name.toList)) = none := by
  have hnone : ∀ word ∈ storyWords, (reservedWords modern).lookup word = none := by
    cases modern <;> decide
  exact hnone _ (List.contains_iff_mem.mp h)

theorem exists_judge_leaf (name : String) (st : Statement) :
    ∃ findings, judge modern convention name (.leaf st) = .ok findings := by
  have hbranches : ∃ findings, branches (.leaf st) = .ok findings := ⟨_, rfl⟩
  have hstory : ∃ findings, story modern name (.leaf st) = .ok findings := by
    unfold story
    split
    · exact ⟨_, rfl⟩
    · exact ⟨_, rfl⟩
  obtain ⟨others, hothers⟩ := hbranches
  obtain ⟨stories, hstories⟩ := hstory
  unfold judge
  split
  · exact ⟨_, rfl⟩
  · split
    · rw [hothers, hstories]
      exact ⟨_, rfl⟩
    · split
      · exact ⟨_, rfl⟩
      · rw [hstories]
        exact ⟨_, rfl⟩

theorem exists_judge_of_not_needsTokens {name : String} (h : ¬ NeedsTokens name) (n : Node) :
    ∃ findings, judge modern convention name n = .ok findings := by
  rw [NeedsTokens, ← normalized_eq_iff, ← contains_storyWords_iff, not_or] at h
  unfold judge
  rw [if_neg h.1, story, if_neg h.2]
  split
  · exact ⟨_, rfl⟩
  · split
    · exact ⟨_, rfl⟩
    · exact ⟨_, rfl⟩

theorem judge_of_needsTokens {name : String} (h : NeedsTokens name) {n : Node}
    (htokens : tokenized n = .error .absentPart) :
    judge modern convention name n = .error .absentPart := by
  have hskip := h.not_skipped
  rw [NeedsTokens, ← normalized_eq_iff, ← contains_storyWords_iff] at h
  unfold judge
  rw [hskip, if_neg Bool.false_ne_true]
  by_cases hcondition : Name.normalized name = "runkeywordif"
  · rw [if_pos hcondition, branches, htokens]
    rfl
  · have hstory := h.resolve_left hcondition
    rw [if_neg hcondition, lookup_reservedWords modern hstory, story, if_pos hstory, htokens]
    rfl

end

end Check.KeywordName

def Node.LacksTokens (n : Node) : Prop :=
  n.isBlock .keyword = true ∧ Check.KeywordName.NeedsTokens (n.name?.getD "")

instance (n : Node) : Decidable n.LacksTokens := inferInstanceAs (Decidable (_ ∧ _))

namespace Check.KeywordName

section

variable (modern : Bool) (convention : String)

/-- The check goes through on every node but a definition that lacks tokens. -/
theorem exists_inNode {n : Node} (h : ¬ n.LacksTokens) :
    ∃ findings, inNode modern convention n = .ok findings := by
  cases n with
  | leaf st =>
    simp only [inNode]
    split
    · exact exists_judge_leaf modern convention _ st
    · split
      · exact exists_judge_leaf modern convention _ st
      · exact ⟨_, rfl⟩
  | block kind header body orelse close errors =>
    cases kind with
    | keyword =>
      rw [Node.LacksTokens, not_and] at h
      simp only [inNode]
      split
      · exact ⟨_, rfl⟩
      · exact exists_judge_of_not_needsTokens modern convention (h rfl) _
    | _ => exact ⟨_, rfl⟩

theorem inNode_of_lacksTokens {n : Node} (h : n.LacksTokens) :
    inNode modern convention n = .error .absentPart := by
  obtain ⟨hkeyword, hname⟩ := h
  cases n with
  | leaf st => cases hkeyword
  | block kind header body orelse close errors =>
    obtain rfl : kind = .keyword := by simpa [Node.isBlock, Node.isBlockWith] using hkeyword
    have hsome := hname.not_skipped
    rw [Bool.or_eq_false_iff, Bool.or_eq_false_iff] at hsome
    simp only [inNode]
    rw [if_neg (by simp [hsome.1.1])]
    exact judge_of_needsTokens modern convention hname rfl

theorem exists_gather_inNode_iff (ns : List Node) :
    (∃ findings, gather (inNode modern convention) ns = .ok findings) ↔ ∀ n ∈ ns, ¬ n.LacksTokens := by
  rw [exists_gather_iff]
  refine forall₂_congr fun n _ => ⟨?_, exists_inNode modern convention⟩
  rintro ⟨findings, hfindings⟩ hlacks
  rw [inNode_of_lacksTokens modern convention hlacks] at hfindings
  cases hfindings

theorem gather_inNode_of_lacksTokens {ns : List Node} (h : ∃ n ∈ ns, n.LacksTokens) :
    gather (inNode modern convention) ns = .error .absentPart := by
  induction ns with
  | nil => simp at h
  | cons n ns ih =>
    rw [gather]
    by_cases hn : n.LacksTokens
    · rw [inNode_of_lacksTokens modern convention hn]
      rfl
    · obtain ⟨here, hhere⟩ := exists_inNode modern convention hn
      obtain ⟨m, hm, hlacks⟩ := h
      have hmore : m ∈ ns := (List.mem_cons.mp hm).resolve_left fun heq => hn (heq ▸ hlacks)
      rw [hhere, ih ⟨m, hmore, hlacks⟩]
      rfl

end

/-! ## The findings -/

def OnName (f : Finding) : Prop :=
  (f.rule = .keywordNameIsReservedWord ∨ f.rule = .bddWithoutKeywordCall) ∧ (∃ a b, f.args = [a, b]) ∨
    f.rule ∈ [RuleKey.wrongCaseInKeywordName, .underscoreInKeywordName, .elseNotUpperCase,
      .keywordNameIsEmpty] ∧ f.args = []

theorem OnName.fills {f : Finding} (h : OnName f) : f.rule ∈ Checker.keywordNaming.keys ∧ f.Fills := by
  rcases h with ⟨hrule | hrule, a, b, hargs⟩ | ⟨hrule, hargs⟩
  · exact ⟨by rw [hrule]; decide,
      Finding.fills_of_template hrule hargs rfl rfl (.cons trivial (.cons trivial .nil))⟩
  · exact ⟨by rw [hrule]; decide,
      Finding.fills_of_template hrule hargs rfl rfl (.cons trivial (.cons trivial .nil))⟩
  · have hall : ∀ key ∈ [RuleKey.wrongCaseInKeywordName, .underscoreInKeywordName, .elseNotUpperCase,
        .keywordNameIsEmpty], key ∈ Checker.keywordNaming.keys ∧ '%' ∉ key.template.toList := by
      decide +kernel
    obtain ⟨hkey, htemplate⟩ := hall f.rule hrule
    exact ⟨hkey, f.rule.template, by rw [hargs]; exact Text.fill_of_no_place htemplate⟩

theorem onName_of_mem_ite {rule : RuleKey} (h : rule ∈ [RuleKey.wrongCaseInKeywordName,
      .underscoreInKeywordName, .elseNotUpperCase, .keywordNameIsEmpty]) {p : Prop} [Decidable p]
    {line col : Int} {f : Finding} (hf : f ∈ if p then [found rule [] line col] else []) : OnName f := by
  split at hf
  · rw [List.mem_singleton.mp hf]
    exact Or.inr ⟨h, rfl⟩
  · cases hf

private theorem onName_spelling (convention name : String) (n : Node) :
    ∀ f ∈ spelling convention name n, OnName f :=
  List.forall_mem_append.mpr
    ⟨fun _ => onName_of_mem_ite (by decide), fun _ => onName_of_mem_ite (by decide)⟩

private theorem onName_branches {n : Node} {findings : List Finding} (h : branches n = .ok findings) :
    ∀ f ∈ findings, OnName f := by
  obtain ⟨st, -, hfindings⟩ := exists_of_bind_eq_ok h
  rw [← Except.ok.inj hfindings, List.forall_mem_map]
  exact fun t _ => Or.inl ⟨Or.inl rfl, _, _, rfl⟩

theorem onName_story {modern : Bool} {name : String} {n : Node} {findings : List Finding}
    (h : story modern name n = .ok findings) : ∀ f ∈ findings, OnName f := by
  unfold story at h
  split at h
  · obtain ⟨st, -, hfindings⟩ := exists_of_bind_eq_ok h
    rw [← Except.ok.inj hfindings, List.forall_mem_singleton]
    exact Or.inl ⟨Or.inr rfl, _, _, rfl⟩
  · rw [← Except.ok.inj h]
    exact List.forall_mem_nil _

theorem onName_judge {modern : Bool} {convention name : String} {n : Node} {findings : List Finding}
    (h : judge modern convention name n = .ok findings) : ∀ f ∈ findings, OnName f := by
  unfold judge at h
  split at h
  · rw [← Except.ok.inj h]
    exact List.forall_mem_nil _
  · split at h
    · obtain ⟨others, hothers, h⟩ := exists_of_bind_eq_ok h
      obtain ⟨stories, hstories, h⟩ := exists_of_bind_eq_ok h
      rw [← Except.ok.inj h, List.forall_mem_append, List.forall_mem_append]
      exact ⟨⟨onName_branches hothers, onName_story hstories⟩, onName_spelling convention name n⟩
    · split at h
      · rw [← Except.ok.inj h, List.forall_mem_singleton]
        exact Or.inl ⟨Or.inl rfl, _, _, rfl⟩
      · obtain ⟨stories, hstories, h⟩ := exists_of_bind_eq_ok h
        rw [← Except.ok.inj h, List.forall_mem_append]
        exact ⟨onName_story hstories, onName_spelling convention name n⟩

private theorem onName_inCondition (body : List Node) : ∀ f ∈ inCondition body, OnName f := by
  rw [inCondition, List.forall_mem_flatMap]
  intro n _
  split
  · exact fun _ => onName_of_mem_ite (by decide)
  · exact List.forall_mem_nil _

theorem onName_inNode {modern : Bool} {convention : String} {n : Node} {findings : List Finding}
    (h : inNode modern convention n = .ok findings) : ∀ f ∈ findings, OnName f := by
  have hnone (h : Except.ok (ε := Breakdown) [] = .ok findings) : ∀ f ∈ findings, OnName f := by
    rw [← Except.ok.inj h]
    exact List.forall_mem_nil _
  unfold inNode at h
  split at h
  · split at h
    · exact onName_judge h
    · split at h
      · exact onName_judge h
      · exact hnone h
  · simp only at h
    split at h
    · rw [← Except.ok.inj h, List.forall_mem_singleton]
      exact Or.inr ⟨show RuleKey.keywordNameIsEmpty ∈ _ by decide, rfl⟩
    · exact onName_judge h
  · rw [← Except.ok.inj h]
    exact onName_inCondition _
  · exact hnone h

end Check.KeywordName

/-! ## What is reported -/

def Linter.nameConvention (l : Linter) : String :=
  (l.valuesFor .wrongCaseInKeywordName).text (RuleKey.wrongCaseInKeywordName.slot "convention")

namespace Options

open Check.KeywordName

theorem scan_of_lacksTokens (o : Options) {host : Host} {notes : List String} {s : Setup}
    (h : o.setup host = (notes, .ok s)) (memory : Memory) {subject : Subject}
    (hlacks : ∃ n ∈ subject.document.visited, n.LacksTokens) :
    (s.linter.withMemory memory).scan .keywordNaming subject = .error (.brokenCheck .absentPart) :=
  o.scan_broken h memory (show RuleKey.wrongCaseInKeywordName ∈ _ by decide)
    (gather_inNode_of_lacksTokens host.modern s.linter.nameConvention hlacks)

/-- The check of keyword names goes through on every row, and on a node exactly if neither the node nor one
below it is a definition that lacks tokens: a definition is judged unless its name, or that of a definition in
its body, needs tokens, as those like `Run Keyword If` and `Given` do. The checker reports on a document
exactly if this holds of all nodes, and breaks down for want of a part otherwise. -/
theorem names_judged_iff (o : Options) {host : Host} {notes : List String} {s : Setup}
    (h : o.setup host = (notes, .ok s)) (memory : Memory) (subject : Subject) :
    (∀ row : Statement, ∃ findings, inNode host.modern s.linter.nameConvention (.leaf row) = .ok findings) ∧
      (∀ n : Node, (∃ findings, gather (inNode host.modern s.linter.nameConvention) n.visited = .ok findings) ↔
        ∀ m ∈ n.visited, ¬ m.LacksTokens) ∧
      ((∃ issues, (s.linter.withMemory memory).scan .keywordNaming subject = .ok issues) ↔
        ∀ n ∈ subject.document.visited, ¬ n.LacksTokens) ∧
      ((∃ n ∈ subject.document.visited, n.LacksTokens) →
        (s.linter.withMemory memory).scan .keywordNaming subject =
          .error (.brokenCheck .absentPart)) := by
  have hkey : RuleKey.wrongCaseInKeywordName ∈ Checker.keywordNaming.keys := by decide
  refine ⟨fun row => exists_inNode host.modern s.linter.nameConvention fun hlacks => Bool.false_ne_true hlacks.1,
    fun n => exists_gather_inNode_iff host.modern s.linter.nameConvention n.visited, ⟨?_, ?_⟩,
    o.scan_of_lacksTokens h memory⟩
  · rintro ⟨issues, hissues⟩ n hn hlacks
    rw [o.scan_of_lacksTokens h memory ⟨n, hn, hlacks⟩] at hissues
    cases hissues
  · intro hall
    obtain ⟨findings, hfindings⟩ := (exists_gather_inNode_iff host.modern s.linter.nameConvention _).mpr hall
    obtain ⟨issues, hissues, -⟩ := o.scan_findings h memory hkey hfindings fun f hf =>
      (forall_mem_gather (fun n _ here hhere => onName_inNode hhere) hfindings f hf).fills
    exact ⟨issues, hissues⟩

end Options

def Node.definition (name : String) (calls : List (String × List String)) : Node :=
  .block .keyword ⟨.keywordName, [⟨.keywordName, name, 2, 0⟩], []⟩
    (calls.map fun call => .leaf ⟨.keywordCall,
      ⟨.keyword, call.1, 3, 4⟩ :: call.2.map fun value => ⟨.argument, value, 3, 20⟩, []⟩) none none []

def Subject.defining (n : Node) : Subject := ⟨"a.robot", .text [], ⟨none, [⟨.keywords, none, [n]⟩]⟩⟩

def Node.tellingStory : Node :=
  .definition "Given Name" [("given", ["name"]), ("Run Keyword If", ["x", "Log", "else", "Log"])]

namespace Options

theorem names_judged_iff_tellingStory :
    ∃ (s : Setup) (issues : List Issue), standard.setup .plain = ([], .ok s) ∧
      (∀ n ∈ (Subject.defining .tellingStory).document.visited, ¬ n.LacksTokens) ∧
      (∃ findings, gather (Check.KeywordName.inNode true s.linter.nameConvention)
        Node.tellingStory.visited = .ok findings) ∧
      s.linter.scan .keywordNaming (.defining .tellingStory) = .ok issues := by
  have hsetup := setup_standard .plain
  have hfit : ∀ n ∈ (Subject.defining .tellingStory).document.visited, ¬ n.LacksTokens := by
    decide +kernel
  obtain ⟨-, hnode, hscan, -⟩ := names_judged_iff standard hsetup .blank (.defining .tellingStory)
  obtain ⟨issues, hissues⟩ := hscan.mpr hfit
  have hbelow : ∀ m ∈ Node.tellingStory.visited, ¬ m.LacksTokens := by decide +kernel
  exact ⟨_, issues, hsetup, hfit, (hnode .tellingStory).mpr hbelow, hissues⟩

/-- A definition that has Given or Run Keyword If as its name ends the check. -/
theorem definition_named_for_story_not_judged :
    ∃ s : Setup, standard.setup .plain = ([], .ok s) ∧
      s.linter.scan .keywordNaming (.defining (.definition "Given" [])) =
        .error (.brokenCheck .absentPart) ∧
      s.linter.scan .keywordNaming (.defining (.definition "Run Keyword If" [])) =
        .error (.brokenCheck .absentPart) := by
  have hsetup := setup_standard .plain
  exact ⟨_, hsetup, scan_of_lacksTokens standard hsetup .blank (by decide +kernel),
    scan_of_lacksTokens standard hsetup .blank (by decide +kernel)⟩

end Options

end SuiteLint
