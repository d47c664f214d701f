import Mathlib.Data.List.DropRight
import SuiteLint.Check.EmptyLine
import SuiteLint.Checker

/-!
# Runs of empty lines

A body is read once, with a count of the empty lines just read and the last of them. A run is judged when
something else follows, so the runs that are reported are told by what stands behind them.
-/

namespace SuiteLint.Check.EmptyLine

/-- Some lines of a body, with what stands before and behind them. -/
structure Stretch where
  before : List Node
  lines : List Node
  behind : List Node

namespace Stretch

/-- The lines are a run of empty lines that no neighbour makes longer. -/
structure IsRun (r : Stretch) (body : List Node) : Prop where
  whole : r.before ++ r.lines ++ r.behind = body
  nonempty : r.lines ≠ []
  empty : ∀ n ∈ r.lines, isEmptyLine n = true
  starts : ∀ n ∈ r.before.getLast?, isEmptyLine n = false
  ends : ∀ n ∈ r.behind.head?, isEmptyLine n = false

theorem IsRun.rtakeWhile_eq {r : Stretch} {body : List Node} (h : r.IsRun body) :
    (r.before ++ r.lines).rtakeWhile isEmptyLine = r.lines := by
  have hempty := h.empty
  generalize r.lines = lines at hempty ⊢
  induction lines using List.reverseRecOn with
  | nil =>
    rw [List.append_nil, List.rtakeWhile_eq_nil_iff]
    intro hne
    simp [h.starts _ (List.getLast?_eq_some_getLast hne)]
  | append_singleton lines n ih =>
    rw [← List.append_assoc, List.rtakeWhile_concat_pos _ _ _ (hempty n (by simp)),
      ih fun m hm => hempty m (List.mem_append_left _ hm)]

/-- A run that is longer than allowed and stands before something else, and behind something else if leading
lines are not judged. -/
structure IsReported (r : Stretch) (limit : Int) (judged : Bool) (body : List Node) : Prop where
  isRun : r.IsRun body
  long : limit < r.lines.length
  followed : r.behind ≠ []
  preceded : judged = false → r.before ≠ []

/-- The report of a run: its length and the limit, at its last line. -/
def finding (r : Stretch) (limit : Int) : Finding :=
  found .consecutiveEmptyLines [.integer r.lines.length, .integer limit]
    (r.lines.getLast?.elim 1 fun e => anchor e.line) 1

end Stretch

/-- What the state of the reading says about the nodes that were read. -/
structure HasRead (judged : Bool) (seen : List Node) (now : Bool) (r : Run) : Prop where
  now_eq : now = (judged || seen.any (!isEmptyLine ·))
  count_eq : r.count = if now then (seen.rtakeWhile isEmptyLine).length else 0
  last_eq : 0 < r.count → r.last = (seen.rtakeWhile isEmptyLine).getLast?

variable {judged now : Bool} {seen : List Node} {r : Run} {n : Node} {limit : Int}

private theorem hasRead_nil (judged : Bool) : HasRead judged [] judged ⟨0, none⟩ where
  now_eq := by simp
  count_eq := by simp
  last_eq h := absurd h (Nat.lt_irrefl 0)

theorem HasRead.empty (h : HasRead judged seen now r) (hn : isEmptyLine n = true) :
    HasRead judged (seen ++ [n]) now (if now then ⟨r.count + 1, some n⟩ else r) := by
  have hcount := h.count_eq
  have hrun := List.rtakeWhile_concat_pos isEmptyLine seen n hn
  have hnow : now = (judged || (seen ++ [n]).any (!isEmptyLine ·)) := by
    rw [List.any_append, ← Bool.or_assoc, ← h.now_eq]
    simp [hn]
  cases now with
  | true =>
    refine ⟨hnow, ?_, fun _ => ?_⟩
    · rw [if_pos rfl, if_pos rfl, hrun, List.length_append, hcount, if_pos rfl]
      rfl
    · rw [if_pos rfl, hrun, List.getLast?_concat]
  | false =>
    refine ⟨hnow, hcount, fun hpos => ?_⟩
    rw [if_neg Bool.false_ne_true] at hpos hcount
    exact absurd hpos (by omega)

theorem HasRead.other (last : Option Node) (hn : isEmptyLine n = false) :
    HasRead judged (seen ++ [n]) true ⟨0, last⟩ where
  now_eq := by simp [hn]
  count_eq := by simp [hn]
  last_eq h := absurd h (Nat.lt_irrefl 0)

/-- The empty lines at the end of what was read. -/
def lastLines (seen rest : List Node) : Stretch :=
  ⟨seen.rdropWhile isEmptyLine, seen.rtakeWhile isEmptyLine, rest⟩

theorem isRun_lastLines (hseen : seen.rtakeWhile isEmptyLine ≠ []) (hn : isEmptyLine n = false)
    (ns : List Node) : (lastLines seen (n :: ns)).IsRun (seen ++ n :: ns) where
  whole := by rw [lastLines, List.rdropWhile_append_rtakeWhile]
  nonempty := hseen
  empty _ hm := List.mem_rtakeWhile_imp hm
  starts m hm := by
    obtain ⟨hne, rfl⟩ := List.mem_getLast?_eq_getLast hm
    exact Bool.eq_false_iff.mpr (List.rdropWhile_last_not isEmptyLine seen hne)
  ends m hm := Option.some.inj hm ▸ hn

theorem HasRead.lines_eq (h : HasRead judged seen now r) (hpos : 0 < r.count) :
    now = true ∧ r.count = (seen.rtakeWhile isEmptyLine).length := by
  have hcount := h.count_eq
  cases now with
  | true => exact ⟨rfl, hcount⟩
  | false =>
    rw [if_neg Bool.false_ne_true] at hcount
    omega

/-- The run that is judged at a node is the one at the end of what was read before. -/
theorem HasRead.isReported_iff (h : HasRead judged seen now r) (hlimit : 0 ≤ limit)
    (hn : isEmptyLine n = false) {ns : List Node} {s : Stretch} :
    s.IsReported limit judged (seen ++ n :: ns) ∧ s.behind.length = (n :: ns).length ↔
      limit < r.count ∧ s = lastLines seen (n :: ns) := by
  constructor
  · rintro ⟨hs, hlength⟩
    obtain ⟨before, lines, behind⟩ := s
    obtain ⟨rfl, rfl⟩ : before ++ lines = seen ∧ behind = n :: ns :=
      List.append_inj' hs.isRun.whole hlength
    have hnow : now = true := by
      rw [h.now_eq, Bool.or_eq_true, or_iff_not_imp_left, Bool.not_eq_true]
      intro hjudged
      have hbefore : before ≠ [] := hs.preceded hjudged
      have hlast := hs.isRun.starts _ (List.getLast?_eq_some_getLast hbefore)
      exact List.any_eq_true.mpr
        ⟨_, List.mem_append_left lines (List.getLast_mem hbefore), by rw [hlast]; rfl⟩
    have htake : (before ++ lines).rtakeWhile isEmptyLine = lines := hs.isRun.rtakeWhile_eq
    have hdrop : (before ++ lines).rdropWhile isEmptyLine = before := by
      have hboth := List.rdropWhile_append_rtakeWhile (l := before ++ lines) (p := isEmptyLine)
      rw [htake] at hboth
      exact List.append_cancel_right hboth
    have hcount := h.count_eq
    rw [hnow, if_pos rfl, htake] at hcount
    rw [lastLines, htake, hdrop]
    exact ⟨hcount ▸ hs.long, rfl⟩
  · rintro ⟨hlong, rfl⟩
    obtain ⟨hnow, hcount⟩ := h.lines_eq (by omega)
    have hseen : seen.rtakeWhile isEmptyLine ≠ [] := List.ne_nil_of_length_pos (by omega)
    refine ⟨⟨isRun_lastLines hseen hn ns, hcount ▸ hlong, List.cons_ne_nil _ _, ?_⟩, rfl⟩
    intro hjudged hnil
    rw [h.now_eq, hjudged, Bool.false_or, List.any_eq_true] at hnow
    obtain ⟨m, hm, hother⟩ := hnow
    simp [List.rdropWhile_eq_nil_iff.mp hnil m hm] at hother

theorem HasRead.finding_lastLines (h : HasRead judged seen now r) (hpos : 0 < r.count) (limit : Int)
    (ns : List Node) :
    found .consecutiveEmptyLines [.integer r.count, .integer limit]
        (match r.last with
          | some e => anchor e.line
          | none => 1) 1 = (lastLines seen ns).finding limit := by
  rw [Stretch.finding, lastLines, ← (h.lines_eq hpos).2, ← h.last_eq hpos]
  cases r.last <;> rfl

/-- From a state on, the runs are reported that end within the rest, in their order. -/
theorem HasRead.exists_reported (h : HasRead judged seen now r) (hlimit : 0 ≤ limit) (ns : List Node) :
    ∃ found : List Stretch, found.Pairwise (fun s s' => s'.behind.length < s.behind.length) ∧
      (∀ s, s ∈ found ↔ s.IsReported limit judged (seen ++ ns) ∧ s.behind.length ≤ ns.length) ∧
      (runsFrom limit now r ns).1 = found.map (·.finding limit) := by
  induction ns generalizing seen now r with
  | nil =>
    refine ⟨[], .nil, fun s => ?_, rfl⟩
    simp only [List.not_mem_nil, false_iff, not_and, List.length_nil, Nat.le_zero]
    exact fun hs hnil => hs.followed (List.length_eq_zero_iff.mp hnil)
  | cons n ns ih =>
    have hsplit : seen ++ n :: ns = seen ++ [n] ++ ns := List.append_cons ..
    rw [runsFrom]
    cases hn : isEmptyLine n with
    | true =>
      obtain ⟨found, hordered, hmem, hfound⟩ := ih (h.empty hn)
      refine ⟨found, hordered, fun s => ?_, by rw [if_pos rfl, hfound]⟩
      rw [hmem, ← hsplit, List.length_cons, Nat.le_succ_iff, and_or_left, or_iff_left]
      rintro ⟨hs, hlength⟩
      -- the run would end just before an empty line
      obtain ⟨-, hbehind⟩ := List.append_inj' hs.isRun.whole hlength
      exact Bool.noConfusion (hn.symm.trans (hs.isRun.ends n (by rw [hbehind]; rfl)))
    | false =>
      obtain ⟨found, hordered, hmem, hfound⟩ := 
        ih (HasRead.other r.last hn : HasRead judged (seen ++ [n]) true _)
      have hlater (s : Stretch) (hs : s ∈ found) : s.behind.length < (n :: ns).length :=
        Nat.lt_succ_of_le ((hmem s).mp hs).2
      have hall (s : Stretch) : s.IsReported limit judged (seen ++ n :: ns) ∧
          s.behind.length ≤ (n :: ns).length ↔ 
            s ∈ found ∨ limit < r.count ∧ s = lastLines seen (n :: ns) := by
        rw [← h.isReported_iff hlimit hn, hmem, ← hsplit, List.length_cons, Nat.le_succ_iff, and_or_left]
      rw [if_neg Bool.false_ne_true]
      dsimp only
      rw [hfound]
      by_cases hlong : limit < r.count
      · refine ⟨lastLines seen (n :: ns) :: found, .cons hlater hordered, fun s => ?_, ?_⟩
        · rw [hall, List.mem_cons, and_iff_right hlong, or_comm]
        · rw [if_pos hlong, List.map_cons, ← h.finding_lastLines (by omega)]
          rfl
      · refine ⟨found, hordered, fun s => ?_, by rw [if_neg hlong, List.nil_append]⟩
        rw [hall, or_iff_left fun hs => hlong hs.1]

/-- What is left at the end is the count of the last run, or nothing if only leading lines were read that are
passed over. -/
theorem HasRead.trailing_eq (h : HasRead judged seen now r) (limit : Int) (ns : List Node) :
    (runsFrom limit now r ns).2 =
      if judged || (seen ++ ns).any (!isEmptyLine ·) then ((seen ++ ns).rtakeWhile isEmptyLine).length
      else 0 := by
  induction ns generalizing seen now r with
  | nil => rw [runsFrom, List.append_nil, ← h.now_eq, h.count_eq]
  | cons n ns ih =>
    rw [runsFrom, List.append_cons]
    cases hn : isEmptyLine n with
    | true => exact ih (h.empty hn)
    | false => exact ih (HasRead.other r.last hn)

/-- With an `empty_lines` of consecutive-empty-lines (1012) that is not negative, every run of empty lines
that is longer and stands before something else is reported once, in the order of the runs, with its length
and at its last line; if leading lines are not judged, it has to stand behind something else, too. Nothing
else is reported. The number that is left is the length of the run at the end, where lines that lead to
nothing else do not count if leading lines are not judged. -/
theorem long_runs_reported_once (vs : Values) (judged : Bool) (body : List Node)
    (hlimit : 0 ≤ vs.integer (RuleKey.consecutiveEmptyLines.slot "empty_lines")) :
    let limit := vs.integer (RuleKey.consecutiveEmptyLines.slot "empty_lines")
    (∃ reported : List Stretch, reported.Pairwise (fun s s' => s'.behind.length < s.behind.length) ∧
      (∀ s, s ∈ reported ↔ s.IsReported limit judged body) ∧
      (runs vs judged body).1 = reported.map (·.finding limit)) ∧
    (runs vs judged body).2 =
      if judged = false ∧ ∀ n ∈ body, isEmptyLine n = true then 0
      else (body.rtakeWhile isEmptyLine).length := by
  intro limit
  constructor
  · obtain ⟨reported, hordered, hmem, hfound⟩ := (hasRead_nil judged).exists_reported hlimit body
    refine ⟨reported, hordered, fun s => ?_, hfound⟩
    rw [hmem, List.nil_append, and_iff_left_iff_imp]
    intro hs
    rw [← hs.isRun.whole, List.length_append]
    exact Nat.le_add_left _ _
  · have hleft : (judged || ([] ++ body).any (!isEmptyLine ·)) = true ↔
        ¬ (judged = false ∧ ∀ n ∈ body, isEmptyLine n = true) := by
      cases judged <;> simp
    refine ((hasRead_nil judged).trailing_eq limit body).trans ?_
    rw [if_congr hleft rfl rfl, ite_not, List.nil_append]

def blankRow (line : Int) : Node := .leaf ⟨.emptyLine, [⟨.eol, "\n", line, 0⟩], []⟩

def filledRow (line : Int) : Node := .leaf ⟨.metadata, [⟨.metadata, "Metadata", line, 0⟩], []⟩

def spacedRows : List Node :=
  [blankRow 2, filledRow 3] ++ [blankRow 4, blankRow 5] ++ [filledRow 6, blankRow 7]

/-- The line in front counts for nothing, the two in the middle are reported, and the one at the end is left. -/
theorem long_runs_reported_once_spacedRows :
    0 ≤ Checker.emptyLines.defaults.integer (RuleKey.consecutiveEmptyLines.slot "empty_lines") ∧
      (∃ reported : List Stretch,
        ⟨[blankRow 2, filledRow 3], [blankRow 4, blankRow 5], [filledRow 6, blankRow 7]⟩ ∈ reported ∧
        (runs Checker.emptyLines.defaults false spacedRows).1 = reported.map (·.finding 1)) ∧
      (runs Checker.emptyLines.defaults false spacedRows).2 = 1 := by
  have hlimit : 0 ≤ Checker.emptyLines.defaults.integer
      (RuleKey.consecutiveEmptyLines.slot "empty_lines") := by decide
  obtain ⟨⟨reported, -, hmem, hfound⟩, htrailing⟩ :=
    long_runs_reported_once Checker.emptyLines.defaults false spacedRows hlimit
  refine ⟨hlimit, ⟨reported, (hmem _).mpr ⟨⟨rfl, ?_, ?_, ?_, ?_⟩, ?_, ?_, ?_⟩, hfound⟩,
    htrailing.trans (by decide)⟩
  · exact List.cons_ne_nil _ _
  · decide
  · exact fun n hn => Option.some.inj hn ▸ rfl
  · exact fun n hn => Option.some.inj hn ▸ rfl
  · decide
  · exact List.cons_ne_nil _ _
  · exact fun _ => List.cons_ne_nil _ _

end SuiteLint.Check.EmptyLine
