import SuiteLint.Check.Indent

/-!
# Where a definition ends for uneven-indent and bad-indent

The comments and empty lines at the end of a definition do not belong to it from the first comment in the
first column on. The check finds the end so if there is such a comment and what stands before the comments
and empty lines has a mark; else it takes everything but the last part.
-/

namespace SuiteLint.Check.Indent

/-- From a place on, a body holds nothing but comments and empty lines, the first of them a comment in
the first column. -/
def LeavesAt (body : List Node) (place : Nat) : Prop :=
  (∃ n, body[place]? = some n ∧ commentColumn? n = some 1) ∧
    ∀ n ∈ body.drop place, isCommentOrEmpty n = true

instance (body : List Node) (place : Nat) : Decidable (LeavesAt body place) :=
  decidable_of_iff ((body[place]?.any fun n => decide (commentColumn? n = some 1)) = true ∧
    ∀ n ∈ body.drop place, isCommentOrEmpty n = true) <| by
      unfold LeavesAt
      cases body[place]? <;> simp

def IsEnd (body : List Node) (place : Nat) : Prop :=
  LeavesAt body place ∧ (∀ before < place, ¬ LeavesAt body before) ∨
    place = body.length ∧ ∀ other, ¬ LeavesAt body other

def endsMarked (body : List Node) : Bool :=
  (body.reverse.find? fun n => !isCommentOrEmpty n).any (·.mark?.isSome)

private theorem LeavesAt.lt_length {body : List Node} {place : Nat} (h : LeavesAt body place) :
    place < body.length := by
  obtain ⟨⟨n, hn, -⟩, -⟩ := h
  exact (List.getElem?_eq_some_iff.mp hn).1

theorem IsEnd.unique {body : List Node} {place other : Nat} (h : IsEnd body place)
    (h' : IsEnd body other) : other = place := by
  rcases h with ⟨hleaves, hfirst⟩ | ⟨hplace, hnone⟩
  · rcases h' with ⟨hleaves', hfirst'⟩ | ⟨-, hnone'⟩
    · have hle : ¬ place < other := fun hlt => hfirst' place hlt hleaves
      have hge : ¬ other < place := fun hlt => hfirst other hlt hleaves'
      omega
    · exact absurd hleaves (hnone' place)
  · rcases h' with ⟨hleaves', -⟩ | ⟨hplace', -⟩
    · exact absurd hleaves' (hnone other)
    · omega

/-! ## A body and its tail -/

/-- A body has a longest tail of comments and empty lines. -/
theorem exists_tail (body : List Node) :
    ∃ front tail, body = front ++ tail ∧ (∀ n ∈ tail, isCommentOrEmpty n = true) ∧
      ∀ n, front.getLast? = some n → isCommentOrEmpty n = false := by
  induction body with
  | nil => exact ⟨[], [], rfl, by simp, by simp⟩
  | cons n body ih =>
    obtain ⟨front, tail, rfl, htail, hfront⟩ := ih
    cases front with
    | nil =>
      by_cases hn : isCommentOrEmpty n = true
      · refine ⟨[], n :: tail, rfl, ?_, by simp⟩
        intro m hm
        rcases List.mem_cons.mp hm with rfl | hm
        · exact hn
        · exact htail m hm
      · refine ⟨[n], tail, rfl, htail, ?_⟩
        intro m hm
        obtain rfl : n = m := Option.some.inj hm
        exact Bool.eq_false_iff.mpr hn
    | cons first front =>
      refine ⟨n :: first :: front, tail, rfl, htail, ?_⟩
      intro m hm
      exact hfront m (by rwa [List.getLast?_cons_cons] at hm)

section

variable {front tail : List Node} (htail : ∀ n ∈ tail, isCommentOrEmpty n = true)
  (hfront : ∀ n, front.getLast? = some n → isCommentOrEmpty n = false)

include htail hfront

theorem takeWhile_reverse_append :
    (front ++ tail).reverse.takeWhile isCommentOrEmpty = tail.reverse := by
  have htail' : ∀ n ∈ tail.reverse, isCommentOrEmpty n = true :=
    fun n hn => htail n (List.mem_reverse.mp hn)
  rw [← List.head?_reverse] at hfront
  rw [List.reverse_append, List.takeWhile_append_of_pos htail']
  cases hlast : front.reverse with
  | nil => simp
  | cons n rest => simp [hfront n (by rw [hlast]; rfl)]

theorem endsMarked_append :
    endsMarked (front ++ tail) = front.getLast?.any (·.mark?.isSome) := by
  have hnone : tail.reverse.find? (fun n => !isCommentOrEmpty n) = none := by
    rw [List.find?_eq_none]
    intro n hn
    simp [htail n (List.mem_reverse.mp hn)]
  rw [← List.head?_reverse] at hfront ⊢
  rw [endsMarked, List.reverse_append, List.find?_append, hnone, Option.none_or]
  cases hlast : front.reverse with
  | nil => rfl
  | cons n rest => rw [List.find?_cons, hfront n (by rw [hlast]; rfl)]; rfl

theorem tailLength_append :
    tailLength (front ++ tail) =
      if endsMarked (front ++ tail) = true then some tail.length else none := by
  have htake := takeWhile_reverse_append htail hfront
  rw [endsMarked_append htail hfront, ← List.head?_reverse, tailLength]
  rw [List.reverse_append] at htake ⊢
  rw [htake, List.drop_left, List.length_reverse]
  cases front.reverse with
  | nil => rfl
  | cons n rest => cases hmark : n.mark? <;> simp [hmark]

/-- A place from which on the definition is left lies in the tail. -/
theorem leavesAt_append_iff (place : Nat) :
    LeavesAt (front ++ tail) place ↔
      front.length ≤ place ∧
        ∃ n, tail[place - front.length]? = some n ∧ commentColumn? n = some 1 := by
  constructor
  · rintro ⟨hhere, hrest⟩
    have hle : front.length ≤ place := by
      -- else the last part before the tail lies behind the place
      refine Nat.le_of_not_lt fun hlt => ?_
      have hne : front ≠ [] := by
        rintro rfl
        exact absurd hlt (Nat.not_lt_zero _)
      have hlast := hfront (front.getLast hne) (List.getLast?_eq_some_getLast hne)
      have hmem : front.getLast hne ∈ (front ++ tail).drop place := by
        rw [List.drop_append_of_le_length (Nat.le_of_lt hlt), List.mem_append]
        left
        rw [← List.getLast_drop (by simpa using hlt)]
        exact List.getLast_mem _
      rw [hrest _ hmem] at hlast
      exact Bool.noConfusion hlast
    rw [List.getElem?_append_right hle] at hhere
    exact ⟨hle, hhere⟩
  · rintro ⟨hle, hhere⟩
    refine ⟨by rwa [List.getElem?_append_right hle], ?_⟩
    intro n hn
    rw [List.drop_append, List.drop_of_length_le hle, List.nil_append] at hn
    exact htail n (List.mem_of_mem_drop hn)

theorem isEnd_append :
    IsEnd (front ++ tail)
      (front.length + tail.findIdx fun n => commentColumn? n = some 1) := by
  have hleaves := leavesAt_append_iff htail hfront
  by_cases h : tail.findIdx (fun n => commentColumn? n = some 1) < tail.length
  · left
    have hget := List.getElem?_eq_getElem h
    have hcolumn := List.findIdx_getElem (w := h)
    refine ⟨(hleaves _).mpr ⟨Nat.le_add_right _ _, _, ?_, of_decide_eq_true hcolumn⟩, ?_⟩
    · rw [Nat.add_sub_cancel_left]
      exact hget
    · rintro before hbefore hat
      obtain ⟨hle, n, hn, hcolumn⟩ := (hleaves before).mp hat
      have hlt : before - front.length < tail.findIdx fun n => commentColumn? n = some 1 := by omega
      have hnot := List.not_of_lt_findIdx hlt
      obtain ⟨hbound, hget⟩ := List.getElem?_eq_some_iff.mp hn
      rw [hget] at hnot
      exact absurd hcolumn (by simpa using hnot)
  · right
    have hnone := List.findIdx_eq_length.mp (Nat.le_antisymm List.findIdx_le_length (Nat.le_of_not_lt h))
    refine ⟨?_, ?_⟩
    · rw [List.length_append, List.findIdx_eq_length.mpr hnone]
    · intro other hat
      obtain ⟨-, n, hn, hcolumn⟩ := (hleaves other).mp hat
      exact absurd hcolumn (by simpa using hnone n (List.mem_of_getElem? hn))

theorem bodyEnd_append :
    bodyEnd (front ++ tail) =
      if (tail.findIdx fun n => commentColumn? n = some 1) < tail.length ∧
          endsMarked (front ++ tail) = true then
        front.length + tail.findIdx fun n => commentColumn? n = some 1
      else (front ++ tail).length - 1 := by
  rw [bodyEnd, tailLength_append htail hfront]
  cases hmarked : endsMarked (front ++ tail) with
  | false => simp
  | true =>
    have hstart : (front ++ tail).length - tail.length = front.length := by
      rw [List.length_append, Nat.add_sub_cancel]
    simp only [hstart, List.drop_left, if_true, and_true]
    rw [List.findIdx?_eq_guard_findIdx_lt]
    by_cases h : tail.findIdx (fun n => commentColumn? n = some 1) < tail.length
    · rw [if_pos h, Option.guard_eq_some_iff.mpr ⟨rfl, by simpa using h⟩]
    · rw [if_neg h, Option.guard_eq_none_iff.mpr (by simpa using h)]

end

/-- Every body has an end, and the check finds it if it comes before some part and what stands before
the comments and empty lines has a mark. -/
theorem bodyEnd_spec (body : List Node) :
    ∃ place, IsEnd body place ∧ place ≤ body.length ∧
      bodyEnd body =
        if place < body.length ∧ endsMarked body = true then place else body.length - 1 := by
  obtain ⟨front, tail, rfl, htail, hfront⟩ := exists_tail body
  refine ⟨_, isEnd_append htail hfront, ?_, ?_⟩
  · rw [List.length_append]
    exact Nat.add_le_add_left List.findIdx_le_length _
  · simp only [bodyEnd_append htail hfront, List.length_append, Nat.add_lt_add_iff_left]

/-! ## What is judged -/

def commentsFrom (n : Node) (place : Nat) : List Node :=
  (n.body.drop place).filter fun child => (commentColumn? child).isSome

/-- What is found in a definition if its body ends at a place: its rows are compared with each other,
those of a templated test case without the settings, and the comments behind it stand alone. -/
def findingsTo (n : Node) (place : Nat) : List Finding :=
  looseComments (n.body.drop place) ++
    if isTemplated n then
      (uneven [] ((judgedRows n place).filter (!isSetting ·))).1 ++
        (uneven [] ((judgedRows n place).filter isSetting)).1
    else (uneven [] (judgedRows n place)).1

/-- A test case, or a keyword that is not commented out. -/
inductive IsDefinition : Node → Prop
  | testCase (header : Statement) (body : List Node) (close : Option Statement)
      (errors : List String) : IsDefinition (.block .testCase header body none close errors)
  | keyword (header : Statement) (body : List Node) (close : Option Statement)
      (errors : List String) {name : String} (hname : header.name? = some name)
      (hcomment : isCommentedOut name = false) :
      IsDefinition (.block .keyword header body none close errors)

theorem inBranch_open (n : Node) : (inBranch 0 false [] n).1 = findingsTo n (bodyEnd n.body) := by
  have hshallow : (judgedRows n (bodyEnd n.body)).filter (fun child =>
      !isSetting child && decide ((indentOf child : Int) < 0)) = [] := by
    rw [List.filter_eq_nil_iff]
    intro child _
    have : ¬ (indentOf child : Int) < 0 := by omega
    simp [this]
  have hdeep : (judgedRows n (bodyEnd n.body)).filter (fun child =>
      isSetting child || decide (0 ≤ (indentOf child : Int))) = judgedRows n (bodyEnd n.body) := by
    rw [List.filter_eq_self]
    intro child _
    have : 0 ≤ (indentOf child : Int) := by omega
    simp [this]
  simp only [inBranch, findingsTo, Bool.false_eq_true, if_false, hshallow, hdeep, List.map_nil,
    List.nil_append, List.append_assoc]
  cases isTemplated n <;> simp

theorem inNode_of_isDefinition {n : Node} (h : IsDefinition n) :
    inNode n = .ok (findingsTo n (bodyEnd n.body)) := by
  cases h with
  | testCase header body close errors =>
    simp only [inNode, Node.branches, Node.branchesOf, inBranches, inBranch_open, List.append_nil]
  | @keyword header body close errors name hname hcomment =>
    have hrequired : requiredName (.block .keyword header body none close errors) = .ok name := by
      rw [requiredName, Node.name?, Node.header?, Option.bind_some, hname]
    simp only [inNode, hrequired, hcomment, Node.branches, Node.branchesOf, inBranches, inBranch_open,
      List.append_nil, bind, Except.bind, pure, Except.pure, Bool.false_eq_true, if_false]

/-- A comment that is passed over is missing among the comments further on. -/
theorem commentsFrom_ne {n : Node} {place later : Nat} (hlt : place < later)
    (hcomment : ∃ child, n.body[place]? = some child ∧ commentColumn? child = some 1) :
    commentsFrom n later ≠ commentsFrom n place := by
  obtain ⟨child, hchild, hcolumn⟩ := hcomment
  obtain ⟨hbound, rfl⟩ := List.getElem?_eq_some_iff.mp hchild
  have hhere : commentsFrom n place = n.body[place] :: commentsFrom n (place + 1) := by
    rw [commentsFrom, List.drop_eq_getElem_cons hbound, List.filter_cons_of_pos (by rw [hcolumn]; rfl)]
    rfl
  have hless : (commentsFrom n later).length ≤ (commentsFrom n (place + 1)).length := by
    have hdrop : n.body.drop later = (n.body.drop (place + 1)).drop (later - (place + 1)) := by
      rw [List.drop_drop]
      congr
      omega
    rw [commentsFrom, hdrop]
    exact ((List.drop_sublist _ _).filter _).length_le
  intro heq
  rw [heq, hhere, List.length_cons] at hless
  omega

private theorem commentColumn?_of_emptyLine {n : Node} (h : n.isStatement .emptyLine = true) :
    commentColumn? n = none := by
  cases n with
  | leaf s =>
    have hkind : s.kind = .emptyLine := of_decide_eq_true h
    simp [commentColumn?, hkind]
  | block kind header body orelse close errors => cases h

/-- Leaving the last part of a body aside makes no difference exactly if that is an empty line, or no
comment and on the line of the header. -/
theorem judged_without_last_iff (n : Node) :
    judgedRows n (n.body.length - 1) = judgedRows n n.body.length ∧
        commentsFrom n (n.body.length - 1) = commentsFrom n n.body.length ↔
      ∀ last, n.body.getLast? = some last →
        last.isStatement .emptyLine = true ∨ last.line = n.line ∧ commentColumn? last = none := by
  unfold judgedRows commentsFrom
  rcases List.eq_nil_or_concat n.body with hbody | ⟨before, last, hbody⟩
  · rw [hbody]
    simp
  · rw [List.concat_eq_append] at hbody
    rw [hbody, List.length_append, List.length_singleton, Nat.add_sub_cancel, List.take_left,
      List.drop_left, List.take_of_length_le (by simp), List.drop_of_length_le (by simp),
      List.getLast?_concat, List.filter_append]
    by_cases hempty : last.isStatement .emptyLine = true
    · simp [hempty, commentColumn?_of_emptyLine hempty]
    · cases hcolumn : commentColumn? last with
      | none => by_cases hline : last.line = n.line <;> simp [hempty, hline, hcolumn]
      | some column => simp [hempty, hcolumn]

/-- For uneven-indent (1007) and bad-indent (1008), the rows of a test case or keyword before the place that
is taken for its end are judged, and the comments from there on stand alone. That place is the end if this
comes before some part and what stands before the comments and empty lines has a mark; else it is the place of
the last part. So the rows and the comments are the right ones exactly if there is a comment that leaves the
definition, and the place before it is marked or nothing comes behind it, or if there is none and the last
part is an empty line, or no comment and on the line of the header. -/
theorem definition_judged_to_end_iff {n : Node} (h : IsDefinition n) :
    ∃ place, IsEnd n.body place ∧ (∀ other, IsEnd n.body other → other = place) ∧
      inNode n = .ok (findingsTo n (bodyEnd n.body)) ∧
      bodyEnd n.body =
        (if place < n.body.length ∧ endsMarked n.body = true then place else n.body.length - 1) ∧
      (judgedRows n (bodyEnd n.body) = judgedRows n place ∧
          commentsFrom n (bodyEnd n.body) = commentsFrom n place ↔
        place < n.body.length ∧ (endsMarked n.body = true ∨ place = n.body.length - 1) ∨
          place = n.body.length ∧ ∀ last, n.body.getLast? = some last →
            last.isStatement .emptyLine = true ∨
              last.line = n.line ∧ commentColumn? last = none) := by
  obtain ⟨place, hend, hle, hbodyEnd⟩ := bodyEnd_spec n.body
  refine ⟨place, hend, fun other hother => hend.unique hother, inNode_of_isDefinition h, hbodyEnd, ?_⟩
  rcases Nat.lt_or_eq_of_le hle with hlt | rfl
  · have hne : place ≠ n.body.length := Nat.ne_of_lt hlt
    by_cases hmarked : endsMarked n.body = true
    · rw [hbodyEnd, if_pos ⟨hlt, hmarked⟩]
      simp [hlt, hmarked]
    · rw [hbodyEnd, if_neg (by simp [hmarked])]
      by_cases hlast : place = n.body.length - 1
      · rw [← hlast]
        simp [hlt]
      · -- the comment that leaves the definition is judged as one of its rows
        have hleaves : LeavesAt n.body place := by
          rcases hend with ⟨hleaves, -⟩ | ⟨heq, -⟩
          · exact hleaves
          · exact absurd heq hne
        have hbefore : place < n.body.length - 1 := by omega
        have hdiffer := commentsFrom_ne hbefore hleaves.1
        simp [hdiffer, hmarked, hlast, hne]
  · rw [hbodyEnd, if_neg (by simp), judged_without_last_iff]
    simp

def row (line : Int) (blanks : String) : Node :=
  .leaf ⟨.keywordCall, [⟨.separator, blanks, line, 0⟩, ⟨.keyword, "Log", line, blanks.length⟩], []⟩

def commentRow (line column : Int) : Node := .leaf ⟨.comment, [⟨.comment, "# why", line, column⟩], []⟩

def testWith (body : List Node) : Node :=
  .block .testCase ⟨.testCaseName, [⟨.testCaseName, "Test", 2, 0⟩], []⟩ body none none []

def leavingBody : List Node :=
  [row 3 "    ", row 4 "    ", .leaf ⟨.emptyLine, [⟨.eol, "\n", 5, 0⟩], []⟩, commentRow 6 0, commentRow 7 4]

theorem definition_judged_to_end_iff_leaving :
    IsEnd leavingBody 3 ∧
      judgedRows (testWith leavingBody) (bodyEnd leavingBody) = judgedRows (testWith leavingBody) 3 ∧
      commentsFrom (testWith leavingBody) (bodyEnd leavingBody) =
        commentsFrom (testWith leavingBody) 3 ∧
      inNode (testWith leavingBody) = .ok [found .unevenIndent [.string "over"] 7 5] := by
  have hend : IsEnd leavingBody 3 := Or.inl (by decide)
  have hdefinition : IsDefinition (testWith leavingBody) := .testCase ..
  obtain ⟨place, -, hunique, hnode, -, hiff⟩ := definition_judged_to_end_iff hdefinition
  obtain rfl := hunique 3 hend
  obtain ⟨hrows, hcomments⟩ := hiff.mpr (Or.inl (by decide))
  exact ⟨hend, hrows, hcomments, hnode⟩

def openBody : List Node := [row 3 "    ", row 4 "        "]

/-- The body ends behind both rows, but the second one is not judged. -/
theorem last_row_not_judged :
    IsEnd openBody 2 ∧ bodyEnd openBody = 1 ∧ inNode (testWith openBody) = .ok [] ∧
      findingsTo (testWith openBody) 2 = [found .unevenIndent [.string "over"] 4 9] := by
  refine ⟨Or.inr ⟨rfl, ?_⟩, by decide, rfl, rfl⟩
  intro other hleaves
  have hnone : ∀ place < openBody.length, ¬ LeavesAt openBody place := by decide
  exact hnone other hleaves.lt_length hleaves

end SuiteLint.Check.Indent
