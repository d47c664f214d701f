import SuiteLint.Proofs.BlockReach
import SuiteLint.Proofs.FileLines
import SuiteLint.Proofs.RuleReports

/-!
# The end of a file

A file ends late if its last line is nothing but its end, or if the last two lines are blank; it ends openly
if the last line has text and no feed. No file does both, and each is reported exactly if it is the case.
-/

namespace SuiteLint

/-! ## Lines and their ends -/

namespace Text

theorem flatten_lines (text : List Char) : (lines text).flatten = text := by
  fun_induction lines text with
  | case1 => rfl
  | case2 rest ih => rw [List.flatten_cons, ih]; rfl
  | case3 c rest hpair hend ih => rw [List.flatten_cons, ih]; rfl
  | case4 c rest hpair hend hnil ih =>
    rw [hnil, List.flatten_nil] at ih
    rw [← ih]
    rfl
  | case5 c rest hpair hend line more hcons ih =>
    rw [hcons, List.flatten_cons] at ih
    rw [List.flatten_cons, List.cons_append, ih]

theorem nil_not_mem_lines (text : List Char) : [] ∉ lines text := by
  fun_induction lines text with
  | case1 => exact List.not_mem_nil
  | case2 rest ih => simpa using ih
  | case3 c rest hpair hend ih => simpa using ih
  | case4 c rest hpair hend hnil ih => simp
  | case5 c rest hpair hend line more hcons ih =>
    rw [hcons, List.mem_cons, not_or] at ih
    simpa using ih.2

private theorem lines_eq_nil_iff {text : List Char} : lines text = [] ↔ text = [] := by
  constructor
  · intro h
    rw [← flatten_lines text, h, List.flatten_nil]
  · rintro rfl
    rfl

theorem lines_cons {c : Char} (hc : isLineEnd c = false) {text line : List Char} {more : List (List Char)}
    (h : lines text = line :: more) : lines (c :: text) = (c :: line) :: more := by
  rw [lines, hc, if_neg Bool.false_ne_true, h]
  rintro rest rfl -
  exact Bool.false_ne_true (hc.symm.trans rfl)

private theorem lines_cons_of_isLineEnd {c : Char} (hc : isLineEnd c = true) {text : List Char}
    (hpair : ¬ (c = '\r' ∧ text.head? = some '\n')) : lines (c :: text) = [c] :: lines text := by
  rw [lines, if_pos hc]
  rintro rest rfl rfl
  exact hpair ⟨rfl, rfl⟩

private theorem exists_front {first last : List Char} {more front : List (List Char)} {c d : Char}
    (h : first :: more = front ++ [last]) (hfirst : first.getLast? = some d) (hd : isLineEnd d = true)
    (hlast : last.getLast? = some c) (hc : isLineEnd c = false) :
    ∃ front', front = first :: front' ∧ more = front' ++ [last] := by
  cases front with
  | nil =>
    obtain ⟨rfl, -⟩ := List.cons.inj h
    rw [hfirst, Option.some.injEq] at hlast
    rw [hlast, hc] at hd
    cases hd
  | cons first' front' =>
    obtain ⟨rfl, hmore⟩ := List.cons.inj h
    exact ⟨front', rfl, hmore⟩

/-- A line feed goes to the last line, if that is not ended already. -/
theorem lines_append_feed {text : List Char} {front : List (List Char)} {last : List Char} {c : Char}
    (h : lines text = front ++ [last]) (hlast : last.getLast? = some c) (hc : isLineEnd c = false) :
    lines (text ++ ['\n']) = front ++ [last ++ ['\n']] := by
  fun_induction lines text generalizing front last with
  | case1 => simp at h
  | case2 rest ih =>
    obtain ⟨front', rfl, hrest⟩ := exists_front h rfl rfl hlast hc
    exact congrArg (['\r', '\n'] :: ·) (ih hrest hlast)
  | case3 d rest hpair hend ih =>
    obtain ⟨front', rfl, hrest⟩ := exists_front h rfl hend hlast hc
    have hhead : ¬ (d = '\r' ∧ (rest ++ ['\n']).head? = some '\n') := by
      rintro ⟨hd, hhead⟩
      cases rest with
      | nil => simp [lines] at hrest
      | cons e rest => exact hpair rest hd (by rw [Option.some.inj hhead])
    rw [List.cons_append, lines_cons_of_isLineEnd hend hhead, ih hrest hlast]
    rfl
  | case4 d rest hpair hend hnil ih =>
    obtain rfl := lines_eq_nil_iff.mp hnil
    obtain ⟨rfl, rfl⟩ : front = [] ∧ last = [d] := by
      cases front with
      | nil => exact ⟨rfl, (List.cons.inj h).1.symm⟩
      | cons first front => cases front <;> cases h
    exact lines_cons (by simpa using hend) rfl
  | case5 d rest hpair hend line more hcons ih =>
    have hd : isLineEnd d = false := by simpa using hend
    cases front with
    | nil =>
      -- The rest has one line, which is not empty.
      obtain ⟨rfl, rfl⟩ := List.cons.inj h
      have hline : line ≠ [] := fun hnil => nil_not_mem_lines rest (by simp [hcons, hnil])
      have hmore := @ih [] line hcons (by rwa [List.getLast?_cons_of_ne_nil hline] at hlast)
      exact lines_cons hd hmore
    | cons first front =>
      obtain ⟨rfl, rfl⟩ := List.cons.inj h
      have hmore := @ih (line :: front) last hcons hlast
      exact lines_cons hd hmore

def EndsLate (lines : List (List Char)) : Prop :=
  EndsBare lines ∨
    ∃ front line last, lines = front ++ [line, last] ∧ isBlankText line = true ∧ isBlankText last = true

/-- The last line has a character that is not blank, and ends neither with a line feed nor with a carriage
return. -/
def EndsOpenly (lines : List (List Char)) : Prop :=
  ∃ front last, lines = front ++ [last] ∧ (∃ c ∈ last, isBlank c = false) ∧
    last.getLast? ≠ some '\n' ∧ last.getLast? ≠ some '\r'

theorem endsBare_concat_iff (front : List (List Char)) (last : List Char) :
    EndsBare (front ++ [last]) ↔ last = ['\n'] ∨ last = ['\r'] ∨ last = ['\r', '\n'] := by
  simp [EndsBare]

theorem endsLate_concat_iff (front : List (List Char)) (last : List Char) :
    EndsLate (front ++ [last]) ↔ EndsBare (front ++ [last]) ∨
      isBlankText last = true ∧ front.getLast?.any isBlankText = true := by
  rw [Option.any_eq_true]
  refine or_congr Iff.rfl ?_
  constructor
  · rintro ⟨front', line, last', heq, hline, hlast⟩
    have heq : front ++ [last] = (front' ++ [line]) ++ [last'] := by simpa using heq
    obtain ⟨rfl, rfl⟩ := List.append_singleton_inj.mp heq
    exact ⟨hlast, line, List.getLast?_concat, hline⟩
  · rintro ⟨hlast, line, hfront, hline⟩
    obtain ⟨front', rfl⟩ := List.getLast?_eq_some_iff.mp hfront
    exact ⟨front', line, last, by simp, hline, hlast⟩

theorem endsOpenly_concat_iff (front : List (List Char)) (last : List Char) :
    EndsOpenly (front ++ [last]) ↔
      isBlankText last = false ∧ last.getLast?.any Check.Line.isFeed = false := by
  have hblank : (∃ c ∈ last, isBlank c = false) ↔ isBlankText last = false := by
    simp [isBlankText]
  have hfeed : last.getLast? ≠ some '\n' ∧ last.getLast? ≠ some '\r' ↔
      last.getLast?.any Check.Line.isFeed = false := by
    cases last.getLast? <;> simp [Check.Line.isFeed]
  rw [← hblank, ← hfeed]
  constructor
  · rintro ⟨front', last', heq, hends⟩
    obtain ⟨rfl, rfl⟩ := List.append_singleton_inj.mp heq
    exact hends
  · intro hends
    exact ⟨front, last, rfl, hends⟩

/-- A line feed mends a text that ends openly, where no line ends in another way than with feeds. -/
theorem not_ends_append_feed {text : List Char}
    (hends : ∀ c ∈ text, isLineEnd c = true → c = '\n' ∨ c = '\r') (h : EndsOpenly (lines text)) :
    ¬ EndsLate (lines (text ++ ['\n'])) ∧ ¬ EndsOpenly (lines (text ++ ['\n'])) := by
  obtain ⟨front, last, hlines, ⟨c, hc, hfull⟩, hfeed, hreturn⟩ := h
  obtain ⟨d, hd⟩ : ∃ d, last.getLast? = some d :=
    Option.ne_none_iff_exists'.mp fun hnone => by simp [List.getLast?_eq_none_iff.mp hnone] at hc
  have hopen : isLineEnd d = false := by
    have hmem : d ∈ text := by
      rw [← flatten_lines text, hlines]
      exact List.mem_flatten.mpr ⟨last, by simp, List.mem_of_getLast? hd⟩
    refine Bool.eq_false_iff.mpr fun hend => ?_
    rcases hends d hmem hend with rfl | rfl
    · exact hfeed hd
    · exact hreturn hd
  have hblank : isBlankText (last ++ ['\n']) = false := by
    rw [← Bool.not_eq_true, isBlankText_iff]
    intro hall
    exact Bool.false_ne_true (hfull.symm.trans (hall c (List.mem_append_left _ hc)))
  rw [lines_append_feed hlines hd hopen, endsLate_concat_iff, endsOpenly_concat_iff, endsBare_concat_iff]
  refine ⟨?_, by simp [Check.Line.isFeed]⟩
  rintro ((hbare | hbare | hbare) | ⟨hblank', -⟩)
  · exact absurd (hbare ▸ hblank) (by decide)
  · exact absurd (hbare ▸ hblank) (by decide)
  · exact absurd (hbare ▸ hblank) (by decide)
  · exact Bool.false_ne_true (hblank.symm.trans hblank')

end Text

namespace Check.Line

open Text

theorem atEnd_concat (front : List (List Char)) {last : List Char} (h : ¬ EndsBare (front ++ [last])) :
    atEnd (front ++ [last]) =
      if isBlankText last then
        if front.getLast?.any isBlankText then
          [found .tooManyTrailingBlankLines [] (front ++ [last]).length 1]
        else []
      else if last.getLast?.any isFeed then []
      else [found .missingTrailingBlankLine [] (front ++ [last]).length 1] := by
  rw [endsBare_concat_iff] at h
  have hbare : (last == ['\n'] || last == ['\r'] || last == ['\r', '\n']) = false := by
    simpa [and_assoc] using h
  unfold atEnd
  rw [List.reverse_concat]
  simp only [hbare, Bool.false_eq_true, if_false]
  have hline : front.getLast? = front.reverse.head? := List.head?_reverse.symm
  rw [hline]
  cases front.reverse with
  | nil => rfl
  | cons line before => rfl

/-- What is found at the end of a file: too many blank lines, too few, or nothing. -/
theorem atEnd_cases (lines : List (List Char)) :
    (EndsLate lines ∧ ¬ EndsOpenly lines ∧
        atEnd lines = [found .tooManyTrailingBlankLines []
          (if EndsBare lines then lines.length + 1 else lines.length) 1]) ∨
      (¬ EndsLate lines ∧ EndsOpenly lines ∧
        atEnd lines = [found .missingTrailingBlankLine [] lines.length 1]) ∨
      ¬ EndsLate lines ∧ ¬ EndsOpenly lines ∧ atEnd lines = [] := by
  rcases List.eq_nil_or_concat lines with rfl | ⟨front, last, rfl⟩
  · refine Or.inr (Or.inr ⟨?_, ?_, rfl⟩)
    · rintro (hbare | ⟨front, line, last, heq, -⟩)
      · exact absurd hbare (by decide)
      · simp at heq
    · rintro ⟨front, last, heq, -⟩
      simp at heq
  rw [List.concat_eq_append, endsLate_concat_iff, endsOpenly_concat_iff]
  by_cases hbare : EndsBare (front ++ [last])
  · have hblank : isBlankText last = true := by
      rcases (endsBare_concat_iff front last).mp hbare with rfl | rfl | rfl <;> rfl
    rw [atEnd_of_endsBare hbare, hblank, if_pos hbare]
    exact Or.inl ⟨Or.inl hbare, by simp, rfl⟩
  · rw [atEnd_concat front hbare]
    simp only [hbare, false_or, if_false]
    cases isBlankText last with
    | true => cases front.getLast?.any isBlankText <;> simp
    | false => cases last.getLast?.any isFeed <;> simp

theorem filter_checkEnds {keys : List RuleKey} (h : RuleKey.trailingWhitespace ∉ keys)
    (lines : List (List Char)) : (checkEnds lines).filter (fun f => decide (f.rule ∈ keys)) =
      (atEnd lines).filter fun f => decide (f.rule ∈ keys) := by
  rw [checkEnds, List.filter_append, List.filter_eq_nil_iff.mpr, List.nil_append]
  intro f hf
  obtain ⟨⟨line, number⟩, hmem, hf⟩ := List.mem_flatMap.mp hf
  rw [(trailing_spec hmem hf).1]
  simpa using h

theorem mem_atEnd {lines : List (List Char)} {f : Finding} (h : f ∈ atEnd lines) :
    (f.rule = .tooManyTrailingBlankLines ∨ f.rule = .missingTrailingBlankLine) ∧ f.args = [] := by
  rcases atEnd_cases lines with ⟨-, -, hend⟩ | ⟨-, -, hend⟩ | ⟨-, -, hend⟩ <;> rw [hend] at h
  · rw [List.mem_singleton.mp h]
    exact ⟨Or.inl rfl, rfl⟩
  · rw [List.mem_singleton.mp h]
    exact ⟨Or.inr rfl, rfl⟩
  · cases h

private theorem length_atEnd_le (lines : List (List Char)) : (atEnd lines).length ≤ 1 := by
  rcases atEnd_cases lines with ⟨-, -, hend⟩ | ⟨-, -, hend⟩ | ⟨-, -, hend⟩ <;> simp [hend]

private theorem late_found_iff (lines : List (List Char)) :
    (atEnd lines).filter (fun f => decide (f.rule ∈ [RuleKey.tooManyTrailingBlankLines])) ≠ [] ↔
      EndsLate lines := by
  rcases atEnd_cases lines with ⟨hlate, -, hend⟩ | ⟨hlate, -, hend⟩ | ⟨hlate, -, hend⟩ <;>
    simp [hend, hlate, found]

private theorem open_found_iff (lines : List (List Char)) :
    (atEnd lines).filter (fun f => decide (f.rule ∈ [RuleKey.missingTrailingBlankLine])) ≠ [] ↔
      EndsOpenly lines := by
  rcases atEnd_cases lines with ⟨-, hopen, hend⟩ | ⟨-, hopen, hend⟩ | ⟨-, hopen, hend⟩ <;>
    simp [hend, hopen, found]

theorem fills_checkEnds {lines : List (List Char)} {f : Finding} (h : f ∈ checkEnds lines) :
    f.rule ∈ Checker.trailingSpace.keys ∧ f.Fills := by
  have hplain : ∀ key ∈ Checker.trailingSpace.keys, '%' ∉ key.template.toList := by decide +kernel
  suffices hf : f.rule ∈ Checker.trailingSpace.keys ∧ f.args = [] by
    refine ⟨hf.1, f.rule.template, ?_⟩
    rw [hf.2, Text.fill_of_no_place (hplain f.rule hf.1)]
  rcases List.mem_append.mp h with htrailing | hend
  · obtain ⟨⟨line, number⟩, -, hf⟩ := List.mem_flatMap.mp htrailing
    simp only [trailing] at hf
    split at hf
    · split at hf
      · rw [List.mem_singleton.mp hf]
        exact ⟨show RuleKey.trailingWhitespace ∈ _ by decide, rfl⟩
      · cases hf
    · cases hf
  · obtain ⟨hrule | hrule, hargs⟩ := mem_atEnd hend
    · exact ⟨by rw [hrule]; decide, hargs⟩
    · exact ⟨by rw [hrule]; decide, hargs⟩

end Check.Line

/-! ## What is reported -/

private theorem Issue.among_cons_eq_nil {key : RuleKey} {keys : List RuleKey} {issues : List Issue}
    (hkey : among [key] issues = []) (hkeys : among keys issues = []) : among (key :: keys) issues = [] := by
  rw [among, List.filter_eq_nil_iff] at hkey hkeys ⊢
  intro i hi
  rw [List.any_cons, Bool.or_eq_true, not_or]
  exact ⟨by simpa using hkey i hi, hkeys i hi⟩

namespace Options

open Check.Line Text

/-- At most one of the two rules on the end of a file is reported, and each exactly in its case. -/
theorem scan_fileEnd (o : Options) {host : Host} {notes : List String} {s : Setup}
    (h : o.setup host = (notes, .ok s)) (hmissing : s.linter.registry.enables "1002" = true)
    (hmany : s.linter.registry.enables "1010" = true) (memory : Memory) (subject : Subject) :
    ∃ issues, (s.linter.withMemory memory).scan .trailingSpace subject = .ok issues ∧
      (Issue.among [.missingTrailingBlankLine, .tooManyTrailingBlankLines] issues).length ≤ 1 ∧
      (Issue.among [.tooManyTrailingBlankLines] issues ≠ [] ↔
        EndsLate (subject.content.lines?.getD [])) ∧
      (Issue.among [.missingTrailingBlankLine] issues ≠ [] ↔
        EndsOpenly (subject.content.lines?.getD [])) := by
  have hkey : RuleKey.missingTrailingBlankLine ∈ Checker.trailingSpace.keys := by decide
  obtain ⟨issues, hissues, hentries⟩ := o.scan_findings h memory hkey rfl fun f => fills_checkEnds
  have hon : ∀ key ∈ [RuleKey.missingTrailingBlankLine, .tooManyTrailingBlankLines],
      key ∈ Checker.trailingSpace.keys ∧ s.linter.registry.enables key.id = true := by
    simp only [List.forall_mem_cons, List.not_mem_nil, false_imp_iff, implies_true, and_true]
    exact ⟨⟨by decide, hmissing⟩, ⟨by decide, hmany⟩⟩
  have hlength (keys : List RuleKey)
      (hkeys : keys ⊆ [RuleKey.missingTrailingBlankLine, .tooManyTrailingBlankLines]) :
      (Issue.among keys issues).length =
        ((atEnd (subject.content.lines?.getD [])).filter fun f => decide (f.rule ∈ keys)).length := by
    have hnot : RuleKey.trailingWhitespace ∉ keys := fun hmem => absurd (hkeys hmem) (by decide)
    have hsame := congrArg List.length (hentries keys fun key hmem => hon key (hkeys hmem))
    rwa [List.length_map, List.length_map, filter_checkEnds hnot] at hsame
  refine ⟨issues, hissues, ?_, ?_, ?_⟩
  · rw [hlength _ (List.Subset.refl _)]
    exact Nat.le_trans (List.length_filter_le _ _) (length_atEnd_le _)
  · rw [← late_found_iff, ← List.length_pos_iff, hlength _ (by simp), List.length_pos_iff]
  · rw [← open_found_iff, ← List.length_pos_iff, hlength _ (by simp), List.length_pos_iff]

/-- At most one of the two rules on the end of a file is reported: too-many-trailing-blank-lines (1010)
exactly if the file ends late, missing-trailing-blank-line (1002) exactly if it ends openly. Where the lines
of a text end with line feeds and carriage returns only, a line feed mends a text that ends openly. -/
theorem file_end_judged (o : Options) {host : Host} {notes : List String} {s : Setup}
    (h : o.setup host = (notes, .ok s)) (hmissing : s.linter.registry.enables "1002" = true)
    (hmany : s.linter.registry.enables "1010" = true) (memory : Memory) :
    (∀ subject, ∃ issues, (s.linter.withMemory memory).scan .trailingSpace subject = .ok issues ∧
      (Issue.among [.missingTrailingBlankLine, .tooManyTrailingBlankLines] issues).length ≤ 1 ∧
      (Issue.among [.tooManyTrailingBlankLines] issues ≠ [] ↔
        EndsLate (subject.content.lines?.getD [])) ∧
      (Issue.among [.missingTrailingBlankLine] issues ≠ [] ↔
        EndsOpenly (subject.content.lines?.getD []))) ∧
    ∀ (fileName : String) (document : Document) (text : List Char),
      (∀ c ∈ text, isLineEnd c = true → c = '\n' ∨ c = '\r') → ∀ issues,
      (s.linter.withMemory memory).scan .trailingSpace ⟨fileName, .text text, document⟩ = .ok issues →
      Issue.among [.missingTrailingBlankLine] issues ≠ [] →
      ∃ issues', (s.linter.withMemory memory).scan .trailingSpace
          ⟨fileName, .text (text ++ ['\n']), document⟩ = .ok issues' ∧
        Issue.among [.missingTrailingBlankLine, .tooManyTrailingBlankLines] issues' = [] := by
  have hscan := o.scan_fileEnd h hmissing hmany memory
  refine ⟨hscan, fun fileName document text hends issues hissues hreported => ?_⟩
  obtain ⟨issues₀, hissues₀, -, -, hopen⟩ := hscan ⟨fileName, .text text, document⟩
  obtain rfl : issues₀ = issues := Except.ok.inj (hissues₀.symm.trans hissues)
  obtain ⟨hnotLate, hnotOpen⟩ := not_ends_append_feed hends (hopen.mp hreported)
  obtain ⟨issues', hissues', -, hlate', hopen'⟩ := hscan ⟨fileName, .text (text ++ ['\n']), document⟩
  exact ⟨issues', hissues', Issue.among_cons_eq_nil (not_not.mp (mt hopen'.mp hnotOpen))
    (not_not.mp (mt hlate'.mp hnotLate))⟩

end Options

def Content.openText : List Char := "*** Keywords ***\r\nKeyword\n  \r  Log  x ".toList

theorem Options.file_end_judged_openText :
    ∃ (s : Setup) (issues issues' : List Issue), standard.setup .plain = ([], .ok s) ∧
      s.linter.registry.enables "1002" = true ∧ s.linter.registry.enables "1010" = true ∧
      (∀ c ∈ Content.openText, Text.isLineEnd c = true → c = '\n' ∨ c = '\r') ∧
      s.linter.scan .trailingSpace ⟨"a.robot", .text Content.openText, ⟨none, []⟩⟩ = .ok issues ∧
      Issue.among [.missingTrailingBlankLine] issues ≠ [] ∧
      s.linter.scan .trailingSpace ⟨"a.robot", .text (Content.openText ++ ['\n']), ⟨none, []⟩⟩ =
        .ok issues' ∧
      Issue.among [.missingTrailingBlankLine, .tooManyTrailingBlankLines] issues' = [] := by
  have hsetup := setup_standard .plain
  have hmissing := enables_standard hsetup .missingTrailingBlankLine
  have hmany := enables_standard hsetup .tooManyTrailingBlankLines
  have hall : Content.openText.all (fun c => Text.isLineEnd c = true → c = '\n' ∨ c = '\r') = true := by
    decide +kernel
  have hends : ∀ c ∈ Content.openText, Text.isLineEnd c = true → c = '\n' ∨ c = '\r' :=
    fun c hc => of_decide_eq_true (List.all_eq_true.mp hall c hc)
  have hopen : Text.EndsOpenly (Text.lines Content.openText) :=
    ⟨["*** Keywords ***\r\n".toList, "Keyword\n".toList, "  \r".toList], "  Log  x ".toList,
      by decide +kernel, ⟨'x', by decide, by decide⟩, by decide, by decide⟩
  obtain ⟨hjudged, hmended⟩ := file_end_judged standard hsetup hmissing hmany .blank
  obtain ⟨issues, hissues, -, -, hiff⟩ := hjudged ⟨"a.robot", .text Content.openText, ⟨none, []⟩⟩
  have hreported := hiff.mpr hopen
  obtain ⟨issues', hissues', hnone⟩ := hmended "a.robot" ⟨none, []⟩ _ hends issues hissues hreported
  exact ⟨_, issues, issues', hsetup, hmissing, hmany, hends, hissues, hreported, hissues', hnone⟩

end SuiteLint
