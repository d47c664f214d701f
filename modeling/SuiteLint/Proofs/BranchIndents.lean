import SuiteLint.Proofs.BodyEnd
import SuiteLint.Proofs.Tallies

/-!
# The indentation of branches

The branches of an IF are judged one after the other, with shortcuts. All of this comes to one rule: a row is
uneven exactly if its indentation is not the most common one among the rows of its branch and of all branches
before it, of several the first.
-/

namespace SuiteLint.Check.Indent

/-! ## The rows of a branch -/

def branchRows (b : Node) : List Node :=
  b.body.filter fun child => child.line ≠ b.line && !child.isStatement .emptyLine

def isCounted (required : Int) (child : Node) : Bool :=
  isSetting child || decide (required ≤ (indentOf child : Int))

def countedRows (required : Int) (b : Node) : List Node := (branchRows b).filter (isCounted required)

def shallowRows (required : Int) (b : Node) : List Node :=
  (branchRows b).filter (!isCounted required ·)

def indentsIn (required : Int) (bs : List Node) : List Nat :=
  bs.flatMap fun b => (countedRows required b).map indentOf

def shallowFinding (child : Node) : Finding := found .badIndent [] (anchor child.line) 1

def unevenFinding (common : Option Nat) (child : Node) : Finding :=
  found .unevenIndent [.string (if common.any (· < indentOf child) then "over" else "under")]
    (anchor child.line) (indentOf child + 1)

def unevenFindings (common : Option Nat) (rows : List Node) : List Finding :=
  (rows.filter fun child => common ≠ some (indentOf child)).map (unevenFinding common)

private theorem unevenFindings_eq_nil {common : Option Nat} {rows : List Node}
    (h : ∀ child ∈ rows, common = some (indentOf child)) : unevenFindings common rows = [] := by
  rw [unevenFindings, List.map_eq_nil_iff, List.filter_eq_nil_iff]
  intro child hchild
  simpa using h child hchild

/-! ## One branch -/

section

variable {earlier : Tally Nat} {before : List Nat} (h : earlier.Counts before) (rows : List Node)

include h

theorem counts_with_rows :
    Tally.Counts (if earlier.isEmpty then Tally.ofList (rows.map indentOf)
      else earlier.merge (Tally.ofList (rows.map indentOf))) (before ++ rows.map indentOf) := by
  split
  · next hempty =>
    have hbefore : before = [] := by
      rw [← List.length_eq_zero_iff, ← h.total, List.isEmpty_iff.mp hempty]
      rfl
    rw [hbefore]
    exact Tally.counts_ofList _
  · exact h.merge _

/-- The shortcuts leave out no more than the rule does. -/
theorem uneven_eq :
    (uneven earlier rows).1 = unevenFindings (commonest? (before ++ rows.map indentOf)) rows ∧
      (uneven earlier rows).2.Counts (before ++ rows.map indentOf) := by
  have hcounts := counts_with_rows h rows
  rw [uneven]
  generalize (if earlier.isEmpty then Tally.ofList (rows.map indentOf)
      else earlier.merge (Tally.ofList (rows.map indentOf))) = counts at hcounts
  have hmem : ∀ child ∈ rows, indentOf child ∈ before ++ rows.map indentOf :=
    fun child hchild => List.mem_append_right _ (List.mem_map_of_mem hchild)
  split
  · next hshort =>
    refine ⟨(unevenFindings_eq_nil fun child hchild => ?_).symm, hcounts⟩
    refine commonest?_of_forall_eq (hmem child hchild) fun other hother => ?_
    rw [Bool.or_eq_true, Bool.and_eq_true, decide_eq_true_iff, decide_eq_true_iff] at hshort
    rcases hshort with ⟨hempty, hfew⟩ | hone
    · -- At most one row, and none before it.
      have hlength : (before ++ rows.map indentOf).length < 2 := by
        rw [List.length_append, ← h.total, List.isEmpty_iff.mp hempty, List.length_map]
        simpa [Tally.total] using hfew
      have hsame := hmem child hchild
      generalize before ++ rows.map indentOf = seen at hlength hsame hother
      match seen, hlength with
      | [x], _ => rw [List.mem_singleton.mp hsame, List.mem_singleton.mp hother]
    · exact hcounts.eq_of_length_eq_one hone hother (hmem child hchild)
  · rw [hcounts.mostCommon?_eq]
    cases hcommon : commonest? (before ++ rows.map indentOf) with
    | none =>
      refine ⟨(unevenFindings_eq_nil fun child hchild => ?_).symm, hcounts⟩
      have hseen := hmem child hchild
      rw [eq_nil_of_commonest?_eq_none hcommon] at hseen
      cases hseen
    | some common =>
      refine ⟨?_, hcounts⟩
      simp only [unevenFindings, ne_eq, Option.some.injEq, eq_comm]
      apply List.map_congr_left
      intro child _
      simp [unevenFinding]

end

def branchFindings (required : Int) (upTo : List Node) (b : Node) : List Finding :=
  (shallowRows required b).map shallowFinding ++
    unevenFindings (commonest? (indentsIn required upTo)) (countedRows required b)

theorem inBranch_eq {required : Int} {earlier : Tally Nat} {before : List Node} {b : Node}
    (h : earlier.Counts (indentsIn required before)) (hif : b.isBlock .if_ = true) :
    (inBranch required true earlier b).1 = branchFindings required (before ++ [b]) b ∧
      (inBranch required true earlier b).2.Counts (indentsIn required (before ++ [b])) := by
  have hrows : judgedRows b b.body.length = branchRows b := by
    rw [judgedRows, List.take_length]
    rfl
  have htemplated : isTemplated b = false := by
    cases b with
    | leaf s => cases hif
    | block kind header body orelse close errors =>
      have hkind : kind = .if_ := of_decide_eq_true hif
      rw [hkind]
      rfl
  have hshallow : (branchRows b).filter (fun child =>
      !isSetting child && decide ((indentOf child : Int) < required)) = shallowRows required b := by
    apply List.filter_congr
    intro child _
    rw [isCounted, Bool.not_or, ← decide_not]
    simp only [Int.not_le]
  have hindents : indentsIn required (before ++ [b]) =
      indentsIn required before ++ (countedRows required b).map indentOf := by
    simp [indentsIn]
  obtain ⟨hfound, hcounts⟩ := uneven_eq h (countedRows required b)
  rw [← hindents] at hfound hcounts
  simp only [inBranch, hrows, htemplated, hshallow, if_true, Bool.false_eq_true, if_false,
    List.append_nil]
  exact ⟨congrArg _ hfound, hcounts⟩

/-! ## All branches -/

theorem inBranches_eq {required : Int} {earlier : Tally Nat} {before bs : List Node}
    (h : earlier.Counts (indentsIn required before)) (hif : ∀ b ∈ bs, b.isBlock .if_ = true) :
    inBranches required true earlier bs =
      (bs.zipIdx before.length).flatMap fun entry =>
        branchFindings required ((before ++ bs).take (entry.2 + 1)) entry.1 := by
  induction bs generalizing earlier before with
  | nil => rfl
  | cons b bs ih =>
    rw [List.forall_mem_cons] at hif
    obtain ⟨hfound, hcounts⟩ := inBranch_eq h hif.1
    have hrest := ih hcounts hif.2
    rw [List.length_append, List.length_singleton, List.append_assoc, List.singleton_append] at hrest
    have hupTo : (before ++ b :: bs).take (before.length + 1) = before ++ [b] := by
      rw [List.append_cons, List.take_left' (by simp)]
    have hstep : inBranches required true earlier (b :: bs) =
        (inBranch required true earlier b).1 ++
          inBranches required true (inBranch required true earlier b).2 bs := rfl
    rw [hstep, hfound, hrest, List.zipIdx_cons, List.flatMap_cons, ← hupTo]

/-- In an IF with an END, whose header has two tokens or more, each row of a branch is reported under
bad-indent (1008) that is not indented as far as the second token of the header requires and is no setting. Of
the other rows those are reported under uneven-indent (1007) whose indentation is not the most common one in
this branch and in those before it, the first of several. -/
theorem branch_rows_judged_with_earlier {n : Node} (hif : ∀ b ∈ n.branches, b.isBlock .if_ = true)
    (hend : n.close?.isSome = true) {first second : Token} {rest : List Token}
    (htokens : n.header?.map (·.tokens) = some (first :: second :: rest)) :
    inNode n = .ok (n.branches.zipIdx.flatMap fun entry =>
      branchFindings (second.column + 1) (n.branches.take (entry.2 + 1)) entry.1) := by
  have hnode : inNode n = inStructure n := by
    cases n with
    | leaf s => cases htokens
    | block kind header body orelse close errors =>
      have hkind : kind = .if_ := of_decide_eq_true (hif _ List.mem_cons_self)
      rw [hkind]
      rfl
  have hcounts : Tally.Counts [] (indentsIn (second.column + 1) []) := Tally.counts_ofList []
  have hbranches := inBranches_eq hcounts hif
  simp only [hnode, inStructure, htokens, hend, hbranches]
  rfl

def branchWith (kind : StatementKind) (mark : TokenKind) (word : String) (line : Int)
    (body : List Node) (orelse : Option Node) (close : Option Statement) : Node :=
  .block .if_ ⟨kind, [⟨.separator, "    ", line, 0⟩, ⟨mark, word, line, 4⟩], []⟩ body orelse close []

/-- An IF with three branches. In the first and in the last one two indentations are equally common. -/
def threeBranches : Node :=
  branchWith .ifHeader .if_ "IF" 3 [row 4 "        ", row 5 "          "]
    (some (branchWith .elseIfHeader .elseIf "ELSE IF" 6
      [row 7 "         ", row 8 "        ", row 9 "  "]
      (some (branchWith .elseHeader .else_ "ELSE" 10 [row 11 "          ", row 12 "      "] none none))
      none))
    (some ⟨.end_, [⟨.separator, "    ", 13, 0⟩, ⟨.end_, "END", 13, 4⟩], []⟩)

theorem branch_rows_judged_with_earlier_threeBranches :
    (∀ b ∈ threeBranches.branches, b.isBlock .if_ = true) ∧ threeBranches.close?.isSome = true ∧
      inNode threeBranches = .ok
        [found .unevenIndent [.string "over"] 5 11, found .badIndent [] 9 1,
          found .unevenIndent [.string "over"] 7 10, found .unevenIndent [.string "over"] 11 11,
          found .unevenIndent [.string "under"] 12 7] := by
  have hif : ∀ b ∈ threeBranches.branches, b.isBlock .if_ = true := by decide
  exact ⟨hif, rfl, (branch_rows_judged_with_earlier hif rfl rfl).trans rfl⟩

end SuiteLint.Check.Indent
