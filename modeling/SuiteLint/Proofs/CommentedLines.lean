import SuiteLint.Proofs.BlockReach
import SuiteLint.Proofs.PatternTexts
import SuiteLint.Proofs.RuleReports

/-!
# Disablers and the length of lines

A `# robocop:` or `# noqa` comment is cut out before a line is measured, with the blanks in front of it. It
holds no URL, and none that starts before it reaches it. So a line with such a comment is reported (0508)
exactly if it is reported without, and with the same length.
-/

namespace SuiteLint

/-! ## Lines with comments -/

namespace Text

/-- How a line can end: not at all, with a character that ends lines, or with a carriage return and a line
feed. -/
inductive IsLineEnding : List Char → Prop
  | absent : IsLineEnding []
  | single {c : Char} (h : isLineEnd c = true) : IsLineEnding [c]
  | pair : IsLineEnding ['\r', '\n']

def lineEnds : List Char :=
  ['\n', '\x0b', '\x0c', '\r', '\x1c', '\x1d', '\x1e', '\u0085', '\u2028', '\u2029']

theorem mem_lineEnds {c : Char} (h : isLineEnd c = true) : c ∈ lineEnds := by
  have hmem : ∀ n, (10 ≤ n ∧ n ≤ 13 ∨ 28 ≤ n ∧ n ≤ 30 ∨ n = 133 ∨ n = 8232 ∨ n = 8233) →
      n ∈ lineEnds.map Char.toNat := by
    intro n hn
    simp only [lineEnds, List.map_cons, List.map_nil, List.mem_cons, Char.reduceToNat]
    omega
  have hrange : 10 ≤ c.toNat ∧ c.toNat ≤ 13 ∨ 28 ≤ c.toNat ∧ c.toNat ≤ 30 ∨ c.toNat = 133 ∨
      c.toNat = 8232 ∨ c.toNat = 8233 := by
    simpa [isLineEnd, or_assoc] using h
  obtain ⟨d, hd, heq⟩ := List.mem_map.mp (hmem c.toNat hrange)
  rwa [← Char.toNat_inj.mp heq]

theorem IsLineEnding.spec {ending : List Char} (h : IsLineEnding ending) {c : Char} (hc : c ∈ ending) :
    isBlank c = true ∧ Disabler.isRuleNameChar c = false ∧ c ≠ '=' ∧ c ≠ '#' ∧ c ≠ '/' := by
  have hall : lineEnds.all (fun c => isBlank c = true ∧ Disabler.isRuleNameChar c = false ∧ c ≠ '=' ∧
      c ≠ '#' ∧ c ≠ '/') = true := by
    decide +kernel
  refine of_decide_eq_true (List.all_eq_true.mp hall c ?_)
  cases h with
  | absent => cases hc
  | single h => rw [List.mem_singleton.mp hc]; exact mem_lineEnds h
  | pair =>
    rcases List.mem_cons.mp hc with rfl | hc
    · decide
    · rw [List.mem_singleton.mp hc]
      decide

end Text

namespace Disabler

/-- The comments for the linter: `# noqa`, or `# robocop:` with an action and perhaps a list of rules. -/
inductive IsComment : List Char → Prop
  | quality : IsComment "# noqa".toList
  | action (a : Action) : IsComment ("# robocop: ".toList ++ a.word)
  | list (a : Action) {names : List Char} (h : ∀ c ∈ names, isRuleNameChar c = true) :
    IsComment ("# robocop: ".toList ++ a.word ++ '=' :: names)

variable {comment : List Char}

private theorem IsComment.exists_cons (h : IsComment comment) : ∃ rest, comment = '#' :: rest := by
  cases h with
  | quality => exact ⟨_, rfl⟩
  | action a => exact ⟨_, rfl⟩
  | list a h => exact ⟨_, rfl⟩

theorem IsComment.slash_not_mem (h : IsComment comment) : '/' ∉ comment := by
  have hword (a : Action) : '/' ∉ "# robocop: ".toList ++ a.word := by cases a <;> decide
  cases h with
  | quality => decide
  | action a => exact hword a
  | list a h =>
    rw [List.mem_append, not_or]
    refine ⟨hword a, fun hc => ?_⟩
    rcases List.mem_cons.mp hc with hc | hc
    · exact absurd hc (by decide)
    · exact absurd (h _ hc) (by decide)

end Disabler

/-- A line that ends with a `# robocop:` or `# noqa` comment, which a gap parts from the body. -/
structure CommentedLine where
  body : List Char
  gap : List Char
  comment : List Char
  ending : List Char
  unsigned : '#' ∉ body
  blank : Text.isBlankText gap = true
  apart : gap ≠ []
  isComment : Disabler.IsComment comment
  isEnding : Text.IsLineEnding ending

namespace CommentedLine

variable (line : CommentedLine)

def text : List Char := line.body ++ line.gap ++ line.comment ++ line.ending

def bare : List Char := line.body ++ line.ending

end CommentedLine

/-! ## What is measured -/

namespace Check.Line

open Text

def plainLength (s : List Char) : Nat := (expandTabs (trimRight s)).length

private theorem afterDisabler?_of_ne {c : Char} (h : c ≠ '#') (rest : List Char) :
    afterDisabler? (c :: rest) = none := by
  rw [afterDisabler?_eq, afterSigns?]
  · rfl
  · intro more heq
    exact h (List.cons.inj heq).1

theorem dropDisablers_append {front : List Char} (h : '#' ∉ front) (rest : List Char) :
    dropDisablers 0 (front ++ rest) = front ++ dropDisablers 0 rest := by
  induction front with
  | nil => rfl
  | cons c front ih =>
    rw [List.mem_cons, not_or] at h
    rw [List.cons_append, dropDisablers, afterDisabler?_of_ne (Ne.symm h.1), ih h.2, List.cons_append]

private theorem dropDisablers_skip (front rest : List Char) :
    dropDisablers front.length (front ++ rest) = dropDisablers 0 rest := by
  induction front with
  | nil => rfl
  | cons c front ih => rw [List.length_cons, List.cons_append, dropDisablers, ih]

private theorem dropDisablers_comment {c : Char} {comment rest : List Char}
    (h : afterDisabler? (c :: comment ++ rest) = some rest) :
    dropDisablers 0 (c :: comment ++ rest) = dropDisablers 0 rest := by
  rw [List.cons_append] at h ⊢
  rw [dropDisablers, h]
  simp only [List.length_append, Nat.add_sub_cancel, dropDisablers_skip]

/-- The action of a comment, and what is left behind the list that may follow it. -/
theorem afterDisabler?_action (a : Disabler.Action) (rest : List Char) :
    afterDisabler? ("# robocop: ".toList ++ a.word ++ rest) =
      some ((skipOne '=' rest).dropWhile Disabler.isRuleNameChar) := by
  have hsigns : afterSigns? ("# robocop: ".toList ++ a.word ++ rest) =
      some ("robocop:".toList ++ (' ' :: (a.word ++ rest))) := by
    cases a <;> rfl
  have hquality : after? "noqa".toList ("robocop:".toList ++ (' ' :: (a.word ++ rest))) = none := rfl
  have hlinter := after?_eq_some_iff.mpr (rfl : "robocop:".toList ++ (' ' :: (a.word ++ rest)) = _)
  have hgap : skipOne ' ' (' ' :: (a.word ++ rest)) = a.word ++ rest := rfl
  have hword : after? a.word (a.word ++ rest) = some rest := after?_eq_some_iff.mpr rfl
  rw [afterDisabler?_eq, hsigns, Option.bind_some, hquality, Option.none_or, hlinter, Option.bind_some,
    hgap]
  cases a with
  | disable =>
    have hspelled : Disabler.Action.disable.word = "disable".toList := rfl
    rw [hspelled] at hword ⊢
    rw [hword, Option.some_or, Option.map_some]
  | enable =>
    have hspelled : Disabler.Action.enable.word = "enable".toList := rfl
    have hdisable : after? "disable".toList ("enable".toList ++ rest) = none := rfl
    rw [hspelled] at hword ⊢
    rw [hdisable, Option.none_or, hword, Option.map_some]

/-- A comment ends where the end of the line starts. -/
theorem afterDisabler?_comment {comment ending : List Char} (h : Disabler.IsComment comment)
    (hending : IsLineEnding ending) : afterDisabler? (comment ++ ending) = some ending := by
  have hnames (names : List Char) (hall : ∀ c ∈ names, Disabler.isRuleNameChar c = true) :
      (names ++ ending).dropWhile Disabler.isRuleNameChar = ending := by
    rw [List.dropWhile_append_of_pos hall]
    cases ending with
    | nil => rfl
    | cons c rest => rw [List.dropWhile_cons_of_neg (by simp [(hending.spec List.mem_cons_self).2.1])]
  cases h with
  | quality =>
    have hsigns : afterSigns? ("# noqa".toList ++ ending) = some ("noqa".toList ++ ending) := rfl
    rw [afterDisabler?_eq, hsigns, Option.bind_some, after?_eq_some_iff.mpr rfl, Option.some_or]
  | action a =>
    have hsign : skipOne '=' ending = ending := by
      cases ending with
      | nil => rfl
      | cons c rest => rw [skipOne, if_neg (hending.spec List.mem_cons_self).2.2.1]
    rw [afterDisabler?_action, hsign]
    exact congrArg some (hnames [] (List.forall_mem_nil _))
  | list a hall =>
    rw [List.append_assoc, afterDisabler?_action]
    exact congrArg some (hnames _ hall)

end Check.Line

namespace CommentedLine

open Text Check.Line

variable (line : CommentedLine)

theorem isBlank_ending : ∀ c ∈ line.ending, isBlank c = true := fun _ hc => (line.isEnding.spec hc).1

theorem isBlank_gap : ∀ c ∈ line.gap, isBlank c = true := isBlankText_iff.mp line.blank

theorem not_mem_gap {c : Char} (h : isBlank c = false) : c ∉ line.gap := fun hc =>
  Bool.false_ne_true (h.symm.trans (line.isBlank_gap c hc))

theorem measure_bare : Check.Line.measure line.bare = plainLength line.body := by
  have hsign : '#' ∉ line.bare := by
    rw [bare, List.mem_append, not_or]
    exact ⟨line.unsigned, fun hc => (line.isEnding.spec hc).2.2.2.1 rfl⟩
  have hkept := dropDisablers_append hsign []
  rw [List.append_nil, dropDisablers, List.append_nil] at hkept
  rw [Check.Line.measure, hkept, bare, trimRight_append line.isBlank_ending, plainLength]

/-- The comment is cut out, and the gap is trimmed with the end of the line. -/
theorem measure_text : Check.Line.measure line.text = plainLength line.body := by
  have hfront : '#' ∉ line.body ++ line.gap := by
    rw [List.mem_append, not_or]
    exact ⟨line.unsigned, line.not_mem_gap (by decide)⟩
  have hend : '#' ∉ line.ending := fun hc => (line.isEnding.spec hc).2.2.2.1 rfl
  have hcomment : dropDisablers 0 (line.comment ++ line.ending) = line.ending := by
    have hafter := afterDisabler?_comment line.isComment line.isEnding
    have hkept := dropDisablers_append hend []
    rw [List.append_nil, dropDisablers, List.append_nil] at hkept
    obtain ⟨comment, hstart⟩ := line.isComment.exists_cons
    rw [hstart] at hafter ⊢
    rw [dropDisablers_comment hafter, hkept]
  have hblank : ∀ c ∈ line.gap ++ line.ending, isBlank c = true :=
    List.forall_mem_append.mpr ⟨line.isBlank_gap, line.isBlank_ending⟩
  rw [Check.Line.measure, text, List.append_assoc, dropDisablers_append hfront, hcomment, List.append_assoc,
    trimRight_append hblank, plainLength]

theorem foundIn_bare : Pattern.webAddress.foundIn line.bare = true ↔ Pattern.HasWebAddress line.body := by
  rw [Pattern.webAddress_foundIn_iff, bare, Pattern.hasWebAddress_append_iff]
  · exact fun c hc => line.isBlank_ending c (List.mem_of_mem_head? hc)
  · exact fun hc => (line.isEnding.spec hc).2.2.2.2 rfl

theorem foundIn_text : Pattern.webAddress.foundIn line.text = true ↔ Pattern.HasWebAddress line.body := by
  have htext : line.text = line.body ++ (line.gap ++ line.comment ++ line.ending) := by
    simp only [text, List.append_assoc]
  rw [Pattern.webAddress_foundIn_iff, htext, Pattern.hasWebAddress_append_iff]
  · obtain ⟨c, gap, hgap⟩ := List.exists_cons_of_ne_nil line.apart
    intro d hd
    rw [hgap] at hd
    apply line.isBlank_gap
    rw [hgap, ← Option.some.inj hd]
    exact List.mem_cons_self
  · simp only [List.mem_append, not_or]
    exact ⟨⟨line.not_mem_gap (by decide), line.isComment.slash_not_mem⟩,
      fun hc => (line.isEnding.spec hc).2.2.2.2 rfl⟩

end CommentedLine

/-! ## What is found -/

namespace Check.Line

def lengthFinding (limit : Int) (length number : Nat) : Finding :=
  found .lineTooLong [.integer length, .integer limit] number 1

def lengthEntry (limit : Int) (length number : Nat) : String × String × Int × Int :=
  ("0508", "Line is too long (" ++ toString (length : Int) ++ "/" ++ toString limit ++ ")", number, 1)

theorem entry_lengthFinding (limit : Int) (length number : Nat) :
    (lengthFinding limit length number).Fills ∧
      (lengthFinding limit length number).entry = lengthEntry limit length number := by
  have hfilled : (lengthFinding limit length number).Fills ∧ (lengthFinding limit length number).message =
      "Line is too long (" ++ (toString (length : Int) ++ ("/" ++ (toString limit ++ ")"))) :=
    Finding.fills_of_wording (.plain rfl rfl (.number rfl (.plain rfl rfl
      (.number rfl (.last rfl rfl))))) rfl rfl
  refine ⟨hfilled.1, ?_⟩
  rw [Finding.entry, hfilled.2, lengthEntry]
  simp only [String.append_assoc]
  rfl

def overlong (limit : Int) (ignored : Text.Pattern) (line : List Char) (number : Nat) : List Finding :=
  if !ignored.foundIn line && limit < measure line then [lengthFinding limit (measure line) number] else []

theorem checkLength_eq (values : Values) (lines : List (List Char)) :
    checkLength values lines = (numbered lines).flatMap fun entry =>
      overlong (values.integer (RuleKey.lineTooLong.slot "line_length"))
        (values.pattern (RuleKey.lineTooLong.slot "ignore_pattern")) entry.1 entry.2 :=
  rfl

theorem mem_overlong {limit : Int} {ignored : Text.Pattern} {line : List Char} {number : Nat} {f : Finding}
    (h : f ∈ overlong limit ignored line number) :
    ∃ length, f = lengthFinding limit length number := by
  unfold overlong at h
  split at h
  · exact ⟨_, List.mem_singleton.mp h⟩
  · cases h

/-- What is found on the line after some others is what is found in it. -/
theorem filter_checkLength (values : Values) (before after : List (List Char)) (line : List Char) :
    (checkLength values (before ++ line :: after)).filter (fun f : Finding => f.line = before.length + 1) =
      overlong (values.integer (RuleKey.lineTooLong.slot "line_length"))
        (values.pattern (RuleKey.lineTooLong.slot "ignore_pattern")) line (before.length + 1) := by
  rw [checkLength_eq]
  generalize values.integer (RuleKey.lineTooLong.slot "line_length") = limit
  generalize values.pattern (RuleKey.lineTooLong.slot "ignore_pattern") = ignored
  have hother {ls : List (List Char)} {start : Nat} (h : ∀ n, start ≤ n → n < start + ls.length →
      n ≠ before.length + 1) :
      ((ls.zipIdx start).flatMap fun entry => overlong limit ignored entry.1 entry.2).filter
        (fun f : Finding => f.line = before.length + 1) = [] := by
    rw [List.filter_eq_nil_iff]
    intro f hf
    obtain ⟨⟨l, n⟩, hentry, hf⟩ := List.mem_flatMap.mp hf
    obtain ⟨length, rfl⟩ := mem_overlong hf
    obtain ⟨hfirst, hlast, -⟩ := List.mem_zipIdx hentry
    have hne := h n hfirst hlast
    intro hline
    have hline : (n : Int) = before.length + 1 := of_decide_eq_true hline
    omega
  have hself : (overlong limit ignored line (before.length + 1)).filter
      (fun f : Finding => f.line = before.length + 1) = overlong limit ignored line (before.length + 1) := by
    rw [List.filter_eq_self]
    intro f hf
    obtain ⟨length, rfl⟩ := mem_overlong hf
    simp [lengthFinding, found]
  rw [numbered, List.zipIdx_append, List.zipIdx_cons, List.flatMap_append,
    List.flatMap_cons, List.filter_append, List.filter_append, hother, List.nil_append,
    Nat.add_comm 1, hself, hother, List.append_nil]
  · omega
  · omega

private theorem overlong_bare (limit : Int) (line : CommentedLine) (number : Nat) :
    overlong limit .webAddress line.bare number =
      if ¬ Text.Pattern.HasWebAddress line.body ∧ limit < plainLength line.body then
        [lengthFinding limit (plainLength line.body) number]
      else [] := by
  simp only [overlong, line.measure_bare, Bool.and_eq_true, Bool.not_eq_true', decide_eq_true_eq,
    ← Bool.not_eq_true, line.foundIn_bare]

private theorem overlong_text (limit : Int) (line : CommentedLine) (number : Nat) :
    overlong limit .webAddress line.text number = overlong limit .webAddress line.bare number := by
  have hfound : Text.Pattern.webAddress.foundIn line.text = Text.Pattern.webAddress.foundIn line.bare :=
    Bool.eq_iff_iff.mpr (line.foundIn_text.trans line.foundIn_bare.symm)
  simp only [overlong, line.measure_text, line.measure_bare, hfound]

private theorem checkLength_text {values : Values}
    (hpattern : values.pattern (RuleKey.lineTooLong.slot "ignore_pattern") = .webAddress)
    (line : CommentedLine) (before after : List (List Char)) :
    checkLength values (before ++ line.text :: after) =
      checkLength values (before ++ line.bare :: after) := by
  simp only [checkLength_eq, hpattern, numbered, List.zipIdx_append, List.zipIdx_cons,
    List.flatMap_append, List.flatMap_cons, overlong_text]

private theorem mem_checkLength {values : Values} {lines : List (List Char)} {f : Finding}
    (h : f ∈ checkLength values lines) : f.rule = .lineTooLong ∧ f.Fills := by
  rw [checkLength_eq] at h
  obtain ⟨entry, -, hf⟩ := List.mem_flatMap.mp h
  obtain ⟨length, rfl⟩ := mem_overlong hf
  exact ⟨rfl, (entry_lengthFinding _ _ _).1⟩

end Check.Line

/-! ## What is reported -/

namespace Linter

def lineLimit (l : Linter) : Int :=
  (l.valuesFor .lineTooLong).integer (RuleKey.lineTooLong.slot "line_length")

def anyLengthPattern (l : Linter) : Text.Pattern :=
  (l.valuesFor .lineTooLong).pattern (RuleKey.lineTooLong.slot "ignore_pattern")

end Linter

namespace Options

open Check.Line

theorem scan_lineLength (o : Options) {host : Host} {notes : List String} {s : Setup}
    (h : o.setup host = (notes, .ok s)) (hon : s.linter.registry.enables "0508" = true)
    (memory : Memory) (subject : Subject) {lines : List (List Char)}
    (hlines : subject.content.lines? = some lines) :
    ∃ issues, (s.linter.withMemory memory).scan .lineLength subject = .ok issues ∧
      (Issue.among [.lineTooLong] issues).map Issue.entry =
        (checkLength (s.linter.valuesFor .lineTooLong) lines).map Finding.entry := by
  have hkey : RuleKey.lineTooLong ∈ Checker.lineLength.keys := by decide
  have hrun : (Checker.lineLength.run (subject.openJob host) (s.linter.valuesFor .lineTooLong)
      ⟨subject.document, memory⟩).1 =
        .ok (checkLength (s.linter.valuesFor .lineTooLong) lines) := by
    rw [Checker.run, Subject.openJob, Subject.job, hlines]
    rfl
  obtain ⟨issues, hissues, hentries⟩ := o.scan_only h memory hkey hon hrun fun f hf =>
    ⟨(mem_checkLength hf).1 ▸ hkey, (mem_checkLength hf).2⟩
  refine ⟨issues, hissues, hentries.trans ?_⟩
  rw [RuleKey.among, List.filter_eq_self.mpr fun f hf => decide_eq_true (mem_checkLength hf).1]

/-- Under line-too-long (0508), lines with a URL may have any length, as they may by the standard
`ignore_pattern`, and the others a given one. Whether a line is followed by a `# robocop:` or `# noqa` comment
or not, the file gets the same reports of long lines. The line itself is reported exactly if its body has no
URL and is longer than is allowed, with the length of the body. -/
theorem comment_adds_no_length (o : Options) {host : Host} {notes : List String} {s : Setup}
    (h : o.setup host = (notes, .ok s)) (hon : s.linter.registry.enables "0508" = true)
    (hpattern : s.linter.anyLengthPattern =
      Checker.lineLength.defaults.pattern (RuleKey.lineTooLong.slot "ignore_pattern"))
    (memory : Memory) (fileName : String) (document : Document) (line : CommentedLine)
    {before after : List (List Char)} {content commented : Content}
    (hcontent : content.lines? = some (before ++ line.bare :: after))
    (hcommented : commented.lines? = some (before ++ line.text :: after)) :
    ∃ issues issues',
      (s.linter.withMemory memory).scan .lineLength ⟨fileName, content, document⟩ = .ok issues ∧
      (s.linter.withMemory memory).scan .lineLength ⟨fileName, commented, document⟩ = .ok issues' ∧
      (Issue.among [.lineTooLong] issues').map Issue.entry =
        (Issue.among [.lineTooLong] issues).map Issue.entry ∧
      ((Issue.among [.lineTooLong] issues').map Issue.entry).filter
          (fun entry : String × String × Int × Int => entry.2.2.1 = before.length + 1) =
        if ¬ Text.Pattern.HasWebAddress line.body ∧ s.linter.lineLimit < plainLength line.body then
          [lengthEntry s.linter.lineLimit (plainLength line.body) (before.length + 1)]
        else [] := by
  obtain ⟨issues, hissues, hentries⟩ := o.scan_lineLength h hon memory
    ⟨fileName, content, document⟩ hcontent
  obtain ⟨issues', hissues', hentries'⟩ := o.scan_lineLength h hon memory
    ⟨fileName, commented, document⟩ hcommented
  have hpattern' : s.linter.anyLengthPattern = .webAddress := hpattern
  have hsame := checkLength_text hpattern' line before after
  refine ⟨issues, issues', hissues, hissues', by rw [hentries, hentries', hsame], ?_⟩
  have hfilter : ((checkLength (s.linter.valuesFor .lineTooLong) (before ++ line.bare :: after)).map
      Finding.entry).filter (fun entry : String × String × Int × Int => entry.2.2.1 = before.length + 1) =
        (overlong s.linter.lineLimit .webAddress line.bare (before.length + 1)).map Finding.entry := by
    rw [List.filter_map, ← hpattern']
    exact congrArg _ (filter_checkLength _ before after line.bare)
  rw [hentries', hsame, hfilter, overlong_bare]
  split
  · exact congrArg (fun entry => [entry]) (entry_lengthFinding _ _ _).2
  · rfl

end Options

/-- A row that its tabulator takes over the limit, with a comment behind blanks of two kinds. -/
def CommentedLine.wide : CommentedLine where
  body := List.replicate 118 'x' ++ ['\t', 'y']
  gap := [' ', '\t']
  comment := "# robocop: ".toList ++ Disabler.Action.disable.word ++ '=' :: "0508,rule-1".toList
  ending := ['\r', '\n']
  unsigned := by decide
  blank := by decide
  apart := by decide
  isComment := .list .disable (List.all_eq_true.mp (by decide))
  isEnding := .pair

def Content.headed (line : List Char) : Content := .text ("*** Settings ***\n".toList ++ line)

private theorem Linter.lineLimit_standard :
    lineLimit ⟨.plain, .tuned .plain Options.standard.selection.picks .start, .blank⟩ = 120 := by
  rw [lineLimit, valuesFor_tuned .plain _ _ _ (show _ ∈ Checker.lineLength.keys by decide)]
  rfl

theorem Options.comment_adds_no_length_wide :
    ∃ (s : Setup) (issues issues' : List Issue), standard.setup .plain = ([], .ok s) ∧
      s.linter.registry.enables "0508" = true ∧
      s.linter.anyLengthPattern =
        Checker.lineLength.defaults.pattern (RuleKey.lineTooLong.slot "ignore_pattern") ∧
      s.linter.scan .lineLength ⟨"a.robot", .headed CommentedLine.wide.bare, ⟨none, []⟩⟩ = .ok issues ∧
      s.linter.scan .lineLength ⟨"a.robot", .headed CommentedLine.wide.text, ⟨none, []⟩⟩ = .ok issues' ∧
      (Issue.among [.lineTooLong] issues').map Issue.entry =
        (Issue.among [.lineTooLong] issues).map Issue.entry ∧
      ((Issue.among [.lineTooLong] issues').map Issue.entry).filter
          (fun entry : String × String × Int × Int => entry.2.2.1 = 2) =
        [("0508", "Line is too long (121/120)", 2, 1)] := by
  have hsetup := setup_standard .plain
  have hon := enables_standard hsetup .lineTooLong
  have hpattern : Linter.anyLengthPattern ⟨.plain, .tuned .plain standard.selection.picks .start, .blank⟩ =
      Checker.lineLength.defaults.pattern (RuleKey.lineTooLong.slot "ignore_pattern") := by
    rw [Linter.anyLengthPattern,
      Linter.valuesFor_tuned .plain _ _ _ (show _ ∈ Checker.lineLength.keys by decide)]
    rfl
  have hlines : (Content.headed CommentedLine.wide.bare).lines? =
      some (["*** Settings ***\n".toList] ++ CommentedLine.wide.bare :: []) := by
    decide +kernel
  have hlines' : (Content.headed CommentedLine.wide.text).lines? =
      some (["*** Settings ***\n".toList] ++ CommentedLine.wide.text :: []) := by
    decide +kernel
  obtain ⟨issues, issues', hissues, hissues', hsame, hline⟩ := comment_adds_no_length standard hsetup
    hon hpattern .blank "a.robot" ⟨none, []⟩ .wide hlines hlines'
  refine ⟨_, issues, issues', hsetup, hon, hpattern, hissues, hissues', hsame, hline.trans ?_⟩
  rw [Linter.lineLimit_standard]
  decide +kernel

end SuiteLint
