import SuiteLint.Proofs.FileLines
import SuiteLint.Proofs.PatternFeeds
import SuiteLint.Proofs.SettingEffects

/-!
# Texts in memory and on disk

A text is checked alike whether it is held in memory or stored in a file in UTF-8, where its lines end with
plain line feeds: no reader of raw lines tells these from other ends.
-/

namespace SuiteLint

open Text

def IgnoresFeeds {α : Type} (f : List Char → α) : Prop :=
  ∀ feeds, Feeds feeds → ∀ s, f (s ++ feeds) = f s

section Lines

variable {text : List Char} (h : HasPlainEnds text) {line : List Char}

theorem feeds_of_isEnding {ending : List Char} (he : IsEnding ending) :
    Feeds ending ∧ Feeds (plainLineFeeds ending) := by
  rcases he with rfl | rfl | rfl <;> simp [Feeds, plainLineFeeds, Check.Line.isFeed]

include h

theorem IgnoresFeeds.plainLineFeeds {α : Type} {f : List Char → α} (hf : IgnoresFeeds f)
    (hline : line ∈ lines text) : f (plainLineFeeds line) = f line := by
  obtain ⟨body, ending, rfl, hbody, hending⟩ := exists_body_of_mem_lines h hline
  have hfeeds := feeds_of_isEnding hending
  rw [plainLineFeeds_append hbody, hf _ hfeeds.2, hf _ hfeeds.1]

private theorem IgnoresFeeds.chomp {α : Type} {f : List Char → α} (hf : IgnoresFeeds f)
    (hline : line ∈ lines text) : f (chomp line) = f line := by
  obtain ⟨body, ending, rfl, hbody, hending⟩ := exists_body_of_mem_lines h hline
  rw [chomp_append hbody hending, hf _ (feeds_of_isEnding hending).1]

end Lines

/-! ## Comments that switch rules off -/

theorem Disabler.readLines_map_congr {f g : List Char → List Char} {ls : List (List Char)}
    (h : ∀ line ∈ ls, ∀ t number, readLine t number (f line) = readLine t number (g line))
    (t : Table) (number : Nat) : readLines t number (ls.map f) = readLines t number (ls.map g) := by
  induction ls generalizing t number with
  | nil => rfl
  | cons line ls ih =>
    rw [List.map_cons, List.map_cons, readLines, readLines, h line List.mem_cons_self,
      ih fun l hl => h l (List.mem_cons_of_mem line hl)]

theorem Content.disablers_encode {text : List Char} (h : HasPlainEnds text)
    (hmark : text.head? ≠ some '\ufeff') :
    (Content.bytes (encode text)).disablers = (Content.text text).disablers := by
  have hread : ∀ t number, Disabler.readLines t number ((lines text).map plainLineFeeds) =
      Disabler.readLines t number ((lines text).map chomp) := by
    refine Disabler.readLines_map_congr fun line hline t number => ?_
    have hf : IgnoresFeeds (Disabler.readLine t number) :=
      fun feeds hfeeds s => Disabler.readLine_append_feeds hfeeds t number s
    rw [hf.plainLineFeeds h hline, hf.chomp h hline]
  simp only [disablers, fileLines_encode h hmark, Disablers.ofText, Disablers.ofLines, hread,
    List.isEmpty_map, List.length_map]

/-! ## Checks of raw lines -/

namespace Check

theorem Line.flatMap_numbered_map {α β : Type} {g : α → α} {f : α × Nat → List β} {ls : List α}
    (h : ∀ line ∈ ls, ∀ number, f (g line, number) = f (line, number)) :
    (numbered (ls.map g)).flatMap f = (numbered ls).flatMap f := by
  rw [numbered, List.zipIdx_map, List.flatMap_map, numbered]
  exact List.flatMap_congr fun entry hentry =>
    h entry.1 (List.fst_mem_of_mem_zipIdx hentry) entry.2

variable {text : List Char} (h : HasPlainEnds text)
include h

theorem Line.checkLength_plainLineFeeds {values : Values}
    (hpattern : values.pattern (RuleKey.lineTooLong.slot "ignore_pattern") = .webAddress) :
    checkLength values ((lines text).map plainLineFeeds) = checkLength values (lines text) := by
  rw [checkLength, checkLength, hpattern]
  refine flatMap_numbered_map fun line hline number => ?_
  have hfound : IgnoresFeeds Pattern.webAddress.foundIn :=
    fun _ hfeeds => Pattern.webAddress_append_feeds hfeeds
  have hmeasure : IgnoresFeeds measure := fun _ hfeeds => measure_append_feeds hfeeds
  simp only [hfound.plainLineFeeds h hline, hmeasure.plainLineFeeds h hline]

theorem Line.isBareEnd_plainLineFeeds {line : List Char} (hline : line ∈ lines text) :
    (plainLineFeeds line == ['\n'] || plainLineFeeds line == ['\r'] ||
        plainLineFeeds line == ['\r', '\n']) =
      (line == ['\n'] || line == ['\r'] || line == ['\r', '\n']) := by
  obtain ⟨body, ending, rfl, hbody, hending⟩ := exists_body_of_mem_lines h hline
  rw [plainLineFeeds_append hbody]
  rcases hending with rfl | rfl | rfl
  · rfl
  · rfl
  · cases body with
    | nil => rfl
    | cons c body =>
      have hc : c ≠ '\r' := fun hc => absurd (hbody c List.mem_cons_self) (hc ▸ by decide)
      cases body <;> simp [plainLineFeeds, beq_eq_false_iff_ne.mpr hc]

theorem Line.endsInFeed_plainLineFeeds {line : List Char} (hline : line ∈ lines text) :
    (plainLineFeeds line).getLast?.any isFeed = line.getLast?.any isFeed := by
  obtain ⟨body, ending, rfl, hbody, hending⟩ := exists_body_of_mem_lines h hline
  rw [plainLineFeeds_append hbody]
  rcases hending with rfl | rfl | rfl
  · rfl
  · rfl
  · simp [plainLineFeeds, isFeed]

omit h in
private theorem isBlankText_ignoresFeeds : IgnoresFeeds isBlankText := by
  intro feeds hfeeds s
  have hblank : feeds.all isBlank = true := by
    rw [List.all_eq_true]
    intro c hc
    rcases eq_feed (hfeeds c hc) with rfl | rfl <;> decide
  rw [isBlankText, List.all_append, hblank, Bool.and_true, isBlankText]

theorem Line.atEnd_plainLineFeeds : atEnd ((lines text).map plainLineFeeds) = atEnd (lines text) := by
  rw [atEnd, atEnd, ← List.map_reverse, List.length_map]
  have hmem : ∀ line ∈ (lines text).reverse, line ∈ lines text := fun _ => List.mem_reverse.mp
  generalize (lines text).reverse = reversed at hmem
  cases reversed with
  | nil => rfl
  | cons last before =>
    have hlast := hmem last List.mem_cons_self
    simp only [List.map_cons, isBareEnd_plainLineFeeds h hlast, endsInFeed_plainLineFeeds h hlast,
      isBlankText_ignoresFeeds.plainLineFeeds h hlast]
    cases before with
    | nil => rfl
    | cons line before =>
      have hline := hmem line (List.mem_cons_of_mem last List.mem_cons_self)
      simp only [List.map_cons, isBlankText_ignoresFeeds.plainLineFeeds h hline]

private theorem Line.checkEnds_plainLineFeeds :
    checkEnds ((lines text).map plainLineFeeds) = checkEnds (lines text) := by
  rw [checkEnds, checkEnds, atEnd_plainLineFeeds h]
  congr 1
  refine flatMap_numbered_map fun line hline number => ?_
  have hf : IgnoresFeeds (trailing · number) := fun _ hfeeds s => trailing_append_feeds hfeeds s number
  exact hf.plainLineFeeds h hline

theorem IgnoredData.checkFrom_plainLineFeeds (marked : Bool) (number : Nat) :
    checkFrom marked number ((lines text).map plainLineFeeds) =
      checkFrom marked number (lines text) := by
  have hjudge : ∀ line ∈ lines text, ∀ n,
      judge marked n (plainLineFeeds line) = judge marked n line := by
    intro line hline n
    have hf : IgnoresFeeds (judge marked n) := fun _ hfeeds => judge_append_feeds hfeeds marked n
    exact hf.plainLineFeeds h hline
  generalize lines text = ls at hjudge
  induction ls generalizing number with
  | nil => rfl
  | cons line ls ih =>
    rw [List.map_cons, checkFrom, checkFrom, hjudge line List.mem_cons_self,
      ih _ fun l hl => hjudge l (List.mem_cons_of_mem line hl)]

omit h in
theorem IgnoredData.isMarked_encode (hmark : text.head? ≠ some '\ufeff') :
    isMarked (encode text) = false := by
  have hno : ∀ mark ∈ byteOrderMarks, ¬ mark <+: encode text := by
    intro mark hm hpre
    have hsub : ∀ b ∈ mark, b.toNat < 248 := fun b hb => lt_of_mem_encode (hpre.subset hb)
    simp only [byteOrderMarks, List.mem_cons, List.not_mem_nil, or_false] at hm
    rcases hm with rfl | rfl | rfl | rfl | rfl
    · exact absurd (hsub 0xfe (by decide)) (by decide)
    · exact absurd (hsub 0xff (by decide)) (by decide)
    · exact hmark (head?_eq_of_encode_marked hpre)
    · exact absurd (hsub 0xff (by decide)) (by decide)
    · exact absurd (hsub 0xff (by decide)) (by decide)
  simp only [isMarked, List.any_eq_false, List.isPrefixOf_iff_prefix]
  exact hno

private theorem IgnoredData.check_encode (hmark : text.head? ≠ some '\ufeff') :
    check (some (encode text)) ((lines text).map plainLineFeeds) = check none (lines text) := by
  rw [check, check, checkFrom_plainLineFeeds h, Option.any_some, isMarked_encode hmark]
  rfl

end Check

/-! ## The whole linter -/

/-- No more than three checkers read the content at all. -/
theorem Checker.run_encode (c : Checker) (job : Job) {values : Values} (w : Wake) {text : List Char}
    (h : HasPlainEnds text) (hmark : text.head? ≠ some '\ufeff')
    (hpattern : c = .lineLength →
      values.pattern (RuleKey.lineTooLong.slot "ignore_pattern") = .webAddress) :
    c.run { job with content := .bytes (encode text) } values w =
      c.run { job with content := .text text } values w := by
  have hlines : (Content.bytes (encode text)).lines?.getD [] = (lines text).map plainLineFeeds := by
    rw [Content.lines?, fileLines_encode h hmark, Option.getD_some]
  cases c with
  | ignoredData =>
    simp only [run, hlines, Content.bytes?, Check.IgnoredData.check_encode h hmark]
    rfl
  | lineLength =>
    simp only [run, hlines, Check.Line.checkLength_plainLineFeeds h (hpattern rfl)]
    rfl
  | trailingSpace =>
    simp only [run, hlines, Check.Line.checkEnds_plainLineFeeds h]
    rfl
  | _ => rfl

namespace Linter

def IgnoresAddresses (l : Linter) : Prop :=
  ∀ c ∈ l.registry.active, c.tag = .lineLength →
    c.values.pattern (RuleKey.lineTooLong.slot "ignore_pattern") =
      Checker.lineLength.defaults.pattern (RuleKey.lineTooLong.slot "ignore_pattern")

theorem runAll_congr {job job' : Job} {cs : List (CheckerEntry Checker)}
    (hname : job.fileName = job'.fileName) (hoff : job.off = job'.off)
    (h : ∀ c ∈ cs, ∀ w, c.tag.run job c.values w = c.tag.run job' c.values w) (w : Wake) :
    runAll job w cs = runAll job' w cs := by
  induction cs generalizing w with
  | nil => rfl
  | cons c cs ih =>
    have ih := ih fun c' hc' => h c' (List.mem_cons_of_mem c hc')
    simp only [runAll, h c List.mem_cons_self, hname, hoff, ih]

/-- In-memory and stored texts are checked alike, whatever the document: with the same issues, the
same failures and the same memory afterwards. -/
theorem stored_text_checked_alike (l : Linter) (hl : l.IgnoresAddresses) (fileName : String)
    (document : Document) (text : List Char) (h : HasPlainEnds text)
    (hmark : text.head? ≠ some '\ufeff') :
    l.check ⟨fileName, .bytes (encode text), document⟩ = l.check ⟨fileName, .text text, document⟩ := by
  let job : Job :=
    ⟨l.host, fileName, .text text, document.isTemplated, (Content.text text).disablers⟩
  have hrun (w : Wake) : runAll { job with content := .bytes (encode text) } w l.registry.active =
      runAll job w l.registry.active := by
    apply runAll_congr
    · rfl
    · rfl
    · exact fun c hc w => c.tag.run_encode job w h hmark (hl c hc)
  simp only [check, Subject.job, Content.disablers_encode h hmark]
  rw [hrun]
  rfl

/-- As it is set up without options, and for a text with both ends of lines, comments that switch
rules off, blanks before the ends, and a last line that has none. -/
theorem stored_text_checked_alike_mixedEnds :
    let text :=
      "# robocop: disable=0508\r\n*** Test Cases ***\nT \r\n  Log  é  # noqa\r\nhttps://x ".toList
    HasPlainEnds text ∧ text.head? ≠ some '\ufeff' ∧
      ∃ s, Options.standard.setup .plain = ([], .ok s) ∧ s.linter.IgnoresAddresses ∧
        s.linter.check ⟨"a.robot", .bytes (encode text), ⟨none, []⟩⟩ =
          s.linter.check ⟨"a.robot", .text text, ⟨none, []⟩⟩ := by
  have hl : IgnoresAddresses
      ⟨.plain, .tuned .plain Options.standard.selection.picks .start, .blank⟩ := by
    intro c hc htag
    simp only [Registry.active_tuned] at hc
    obtain ⟨k, -, rfl⟩ := List.mem_map.mp hc
    obtain rfl : k = .lineLength := htag
    rfl
  exact ⟨by decide, by decide, _, Options.setup_standard .plain, hl,
    stored_text_checked_alike _ hl _ _ _ (by decide) (by decide)⟩

end Linter

end SuiteLint
