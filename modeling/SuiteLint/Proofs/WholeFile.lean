import SuiteLint.Proofs.DisablerMeaning
import SuiteLint.Proofs.SelectionFilter

/-!
# Files that are switched off as a whole

A file counts as switched off if the blocks for all rules follow each other from its first line to its
last; no checker is run on it then. On the lines of the file this leaves the same issues as the filter for
each issue.
-/

namespace SuiteLint.Disabler

/-- Blocks that follow each other without a gap cover every line from the first to the last. -/
theorem covered_of_chained {first last : Nat} {blocks : List (Nat × Nat)}
    (h : chained first last blocks = true) (hne : blocks ≠ []) {l : Nat} (hfirst : first ≤ l)
    (hlast : l ≤ last) : ∃ b ∈ blocks, b.1 ≤ l ∧ l ≤ b.2 := by
  induction blocks generalizing first with
  | nil => exact absurd rfl hne
  | cons b blocks ih =>
    obtain ⟨start, stop⟩ := b
    simp only [chained, Bool.and_eq_true, beq_iff_eq] at h
    obtain ⟨rfl, hrest⟩ := h
    by_cases hstop : l ≤ stop
    · exact ⟨(first, stop), List.mem_cons_self, hfirst, hstop⟩
    · have hmore : blocks ≠ [] := by
        rintro rfl
        simp only [chained, beq_iff_eq] at hrest
        omega
      obtain ⟨b, hb, hcovers⟩ := ih hrest hmore (by omega)
      exact ⟨b, List.mem_cons_of_mem _ hb, hcovers⟩

/-! ## Rules that are named have marks -/

def Table.Marked (t : Table) : Prop := ∀ entry ∈ t, entry.2 ≠ .none

namespace Table

theorem Marked.update {t : Table} (h : t.Marked) (rule : String) {f : Marks → Marks}
    (hf : ∀ m, f m ≠ .none) : (t.update rule f).Marked := by
  intro entry hentry
  unfold Table.update at hentry
  split at hentry
  · obtain ⟨old, hold, rfl⟩ := List.mem_map.mp hentry
    split
    · exact hf old.2
    · exact h old hold
  · rcases List.mem_append.mp hentry with hold | hnew
    · exact h entry hold
    · rw [List.mem_singleton.mp hnew]
      exact hf .none

theorem Marked.addLine {t : Table} (h : t.Marked) (rule : String) (line : Nat) :
    (t.addLine rule line).Marked := by
  apply h.update
  intro m hm
  have hline : line ∈ (m.addLine line).lines := (Marks.mem_addLine_lines line m line).mpr (Or.inr rfl)
  rw [show m.addLine line = Marks.none from hm] at hline
  exact List.not_mem_nil hline

private theorem Marked.openBlock {t : Table} (h : t.Marked) (rule : String) (line : Nat) :
    (t.openBlock rule line).Marked := by
  apply h.update
  intro m hm
  have hopened : m.opened.or (some line) = Option.none := congrArg Marks.opened hm
  simp at hopened

theorem close_ne_none {m : Marks} (h : m ≠ .none) (line : Nat) : m.close line ≠ .none := by
  intro hclose
  have hblocks : m.blocks ++ m.opened.toList.map (·, line) = [] :=
    (m.close_blocks line).symm.trans (congrArg Marks.blocks hclose)
  have hlines : m.lines = [] := (m.close_lines line).symm.trans (congrArg Marks.lines hclose)
  apply h
  obtain ⟨opened, lines, blocks⟩ := m
  simp_all [Marks.none]

theorem Marked.closeBlock {t : Table} (h : t.Marked) (rule : String) (line : Nat) :
    (t.closeBlock rule line).Marked := by
  intro entry hentry
  unfold Table.closeBlock at hentry
  split at hentry
  · obtain ⟨old, hold, rfl⟩ := List.mem_map.mp hentry
    exact close_ne_none (h old hold) line
  · obtain ⟨old, hold, rfl⟩ := List.mem_map.mp hentry
    split
    · exact close_ne_none (h old hold) line
    · exact h old hold

end Table

private theorem marked_foldl {step : Table → String → Table}
    (hstep : ∀ t rule, t.Marked → (step t rule).Marked) (rules : List String) {t : Table}
    (h : t.Marked) : (rules.foldl step t).Marked := by
  induction rules generalizing t with
  | nil => exact h
  | cons rule rules ih => exact ih (hstep t rule h)

theorem marked_obey {t : Table} (h : t.Marked) (alone : Bool) (line : Nat) (c : Command) :
    (obey t alone line c).Marked := by
  obtain ⟨action, rules⟩ := c
  cases action <;> cases alone
  · exact marked_foldl (fun t rule ht => ht.addLine rule line) rules h
  · exact marked_foldl (fun t rule ht => ht.openBlock rule line) rules h
  · exact h
  · exact marked_foldl (fun t rule ht => ht.closeBlock rule line) rules h

theorem marked_readLine {t : Table} (h : t.Marked) (number : Nat) (line : List Char) :
    (readLine t number line).Marked := by
  have hnoqa : (if Text.has "# noqa".toList line then t.addLine "all" number else t).Marked := by
    split
    · exact h.addLine "all" number
    · exact h
  rw [readLine_eq]
  cases bearing? line with
  | none => exact hnoqa
  | some found => exact marked_obey hnoqa _ number found.2

private theorem marked_readLines {t : Table} (h : t.Marked) (number : Nat) (lines : List (List Char)) :
    (readLines t number lines).Marked := by
  induction lines generalizing t number with
  | nil => exact h
  | cons line lines ih => exact ih (marked_readLine h number line) (number + 1)

end SuiteLint.Disabler

namespace SuiteLint.Disablers
open Disabler

private theorem marked_ofLines (lines : List (List Char)) : (ofLines lines).table.Marked := by
  have hempty : Table.Marked [] := fun entry hentry => absurd hentry List.not_mem_nil
  rw [ofLines_table]
  exact (marked_readLines hempty 1 lines).closeBlock "all" lines.length

theorem ofLines_wholeFile {lines : List (List Char)} (h : (ofLines lines).wholeFile = true) :
    ∃ m, (ofLines lines).table.lookup "all" = some m ∧ chained 1 lines.length m.blocks = true := by
  cases lines with
  | nil => exact absurd h Bool.false_ne_true
  | cons line rest =>
    have hcovers : coversFile (ofLines (line :: rest)).table (line :: rest).length = true := h
    unfold coversFile at hcovers
    cases hall : (ofLines (line :: rest)).table.lookup "all" with
    | none => simp [hall] at hcovers
    | some m => exact ⟨m, rfl, by simpa [hall] using hcovers⟩

theorem marks_ofLines (lines : List (List Char)) (rule : String) :
    (ofLines lines).table.marks rule = ((readLines [] 1 lines).marks rule).close lines.length := by
  rw [ofLines_table, Table.marks_closeBlock, if_pos (Or.inl rfl)]

private theorem mem_lines_bounds {lines : List (List Char)} {rule : String} {l : Nat}
    (h : l ∈ ((ofLines lines).table.marks rule).lines) : 1 ≤ l ∧ l ≤ lines.length := by
  have hreflects := reflects_readLines [] lines [] (fun rule => Marks.reflects_nil rule) rule
  simp only [List.nil_append, List.length_nil, Nat.zero_add] at hreflects
  rw [marks_ofLines, Marks.close_lines] at h
  have hbounds := ((hreflects.inline l).mp h).bounds
  omega

/-- On a file that is switched off as a whole, all rules are off on every line. Where no block makes it
so, the file has one line, and this line is the one that is named. -/
theorem coversLine_of_wholeFile {lines : List (List Char)} (h : (ofLines lines).wholeFile = true)
    {line : Int} (hfirst : 1 ≤ line) (hlast : line ≤ lines.length) :
    (ofLines lines).coversLine line "all" = true := by
  obtain ⟨m, hm, hchained⟩ := ofLines_wholeFile h
  have hmarks : (ofLines lines).table.marks "all" = m := by simp [Table.marks, hm]
  rw [coversLine_iff, hmarks]
  by_cases hblocks : m.blocks = []
  · left
    have hone : 1 = lines.length := by simpa [hblocks, chained] using hchained
    have hopened : m.opened = Option.none := by rw [← hmarks, marks_ofLines, Marks.close_opened]
    have hmarked : m ≠ .none := marked_ofLines lines ("all", m) (Lookup.mem_of_eq_some hm)
    obtain ⟨l, hl⟩ : ∃ l, l ∈ m.lines := by
      apply List.exists_mem_of_ne_nil
      intro hlines
      apply hmarked
      obtain ⟨opened, marked, blocks⟩ := m
      simp_all [Marks.none]
    have hbounds := mem_lines_bounds (hmarks ▸ hl)
    exact ⟨l, hl, by omega⟩
  · right
    obtain ⟨b, hb, hstart, hstop⟩ :=
      covered_of_chained hchained hblocks (l := line.toNat) (by omega) (by omega)
    exact ⟨b, hb, by omega, by omega⟩

private theorem covers_of_wholeFile {lines : List (List Char)} (h : (ofLines lines).wholeFile = true)
    {line : Int} (hfirst : 1 ≤ line) (hlast : line ≤ lines.length) (extraLines : List Int)
    (id name : String) : (ofLines lines).covers (line :: extraLines) id name = true := by
  rw [covers_ofLines_eq, List.any_eq_true]
  refine ⟨line, List.mem_cons_self, ?_⟩
  rw [List.any_eq_true]
  exact ⟨"all", List.mem_cons_self, coversLine_of_wholeFile h hfirst hlast⟩

end SuiteLint.Disablers

namespace SuiteLint

theorem Content.disablers_of_lines? {content : Content} {lines : List (List Char)}
    (h : content.lines? = some lines) :
    ∃ read : List (List Char), read.length = lines.length ∧ content.disablers = .ofLines read := by
  cases content with
  | text s =>
    have hlines : Text.lines s = lines := Option.some.inj h
    exact ⟨(Text.lines s).map Text.chomp, by rw [List.length_map, hlines], rfl⟩
  | bytes bs =>
    have hlines : Text.fileLines bs = some lines := h
    exact ⟨lines, rfl, by simp only [Content.disablers, hlines]⟩

def Issue.liesWithin (i : Issue) (count : Nat) : Bool := decide (1 ≤ i.line) && decide (i.line ≤ count)

namespace Linter

def checkThrough (l : Linter) (s : Subject) : Except LintError (List Issue) × Linter :=
  let (outcome, memory) := runAll (s.job l.host) ⟨s.document, l.memory⟩ l.registry.active
  (outcome, { l with memory := memory })

theorem check_eq_checkThrough (l : Linter) (s : Subject) :
    l.check s = if s.content.disablers.wholeFile then (.ok [], l) else l.checkThrough s := rfl

/-- If a file is switched off as a whole, `# robocop: disable` covers every issue on one of its lines. So to
run no checker on such a file loses none of the issues on its lines that would be kept one by one. -/
theorem whole_file_shortcut_sound :
    (∀ lines : List (List Char), (Disablers.ofLines lines).wholeFile = true →
      ∀ (line : Int) (extraLines : List Int) (id name : String), 1 ≤ line → line ≤ lines.length →
        (Disablers.ofLines lines).covers (line :: extraLines) id name = true) ∧
    ∀ (l : Linter) (s : Subject) (lines : List (List Char)) (issues : List Issue),
      s.content.lines? = some lines → (l.checkThrough s).1 = .ok issues →
        ∃ reported : List Issue, (l.check s).1 = .ok reported ∧
          reported.filter (·.liesWithin lines.length) =
            issues.filter (·.liesWithin lines.length) := by
  constructor
  · intro lines h line extraLines id name hfirst hlast
    exact Disablers.covers_of_wholeFile h hfirst hlast extraLines id name
  · intro l s lines issues hlines hissues
    obtain ⟨read, hlength, hoff⟩ := Content.disablers_of_lines? hlines
    rw [check_eq_checkThrough]
    split
    · next hwhole =>
      refine ⟨[], rfl, ?_⟩
      symm
      rw [List.filter_nil, List.filter_eq_nil_iff]
      intro i hi hwithin
      simp only [Issue.liesWithin, Bool.and_eq_true, decide_eq_true_eq, ← hlength] at hwithin
      obtain ⟨-, -, -, -, hkept⟩ := exists_issueOf_of_mem_runAll hissues hi
      rw [Subject.off_job, hoff] at hkept
      rw [hoff] at hwhole
      rw [Disablers.covers_of_wholeFile hwhole hwithin.1 hwithin.2] at hkept
      exact Bool.noConfusion hkept
    · exact ⟨issues, hissues, rfl⟩

end Linter

def Linter.forEnds : Linter :=
  ⟨.plain, .ofCheckers [Checker.trailingSpace.tuned .plain RuleKey.anyRule .start], .blank⟩

def Subject.offFromStart : Subject :=
  ⟨"a.robot", .text "# robocop: disable\n\n".toList, ⟨none, []⟩⟩

/-- The one issue that is lost lies after the last line. -/
theorem Linter.whole_file_shortcut_sound_offFromStart :
    (Disablers.ofLines ["# robocop: disable".toList, []]).wholeFile = true ∧
      (Disablers.ofLines ["# robocop: disable".toList, []]).covers [2] "0203" "missing-doc-suite" =
        true ∧
      ∃ issues reported : List Issue,
        (forEnds.checkThrough .offFromStart).1 = .ok issues ∧
        issues.map (fun i => (i.ruleId, i.line)) = [("1010", 3)] ∧
        (forEnds.check .offFromStart).1 = .ok reported ∧
        reported.filter (·.liesWithin 2) = issues.filter (·.liesWithin 2) := by
  have hwhole : (Disablers.ofLines ["# robocop: disable".toList, []]).wholeFile = true := by
    decide +kernel
  have hoff : Subject.offFromStart.content.disablers =
      ⟨[("all", ⟨none, [], [(1, 2)]⟩)], true, true⟩ := by decide +kernel
  have hthrough : ∃ issues, (forEnds.checkThrough .offFromStart).1 = .ok issues ∧
      issues.map (fun i => (i.ruleId, i.line)) = [("1010", 3)] := by
    simp only [checkThrough, Subject.job, hoff]
    exact ⟨_, rfl, rfl⟩
  obtain ⟨issues, hissues, hlines⟩ := hthrough
  obtain ⟨reported, hreported, hsame⟩ :=
    whole_file_shortcut_sound.2 forEnds .offFromStart _ issues rfl hissues
  exact ⟨hwhole, whole_file_shortcut_sound.1 _ hwhole 2 [] _ _ (by decide) (by decide), issues,
    reported, hissues, hlines, hreported, hsame⟩

end SuiteLint
