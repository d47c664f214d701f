import Mathlib.Data.List.Perm.Basic
import SuiteLint.Proofs.RuleReports

/-!
# Tags that all test cases share

The advice could-be-forced-tags (0605) goes by the number of [Tags] and by what all of these share, wherever
they stand. So a [Tags] in a keyword takes the place of one that a test case lacks, or makes one too many.
-/

namespace SuiteLint

namespace Text

/-! ## Texts in order -/

@[simp] theorem mem_dropRepeated {s : String} (texts : List String) : s ∈ dropRepeated texts ↔ s ∈ texts := by
  fun_induction dropRepeated texts with
  | case1 => rfl
  | case2 t => rfl
  | case3 t rest ih => simp [ih]
  | case4 t u rest hne ih => rw [List.mem_cons, ih, ← List.mem_cons]

theorem pairwise_sortTexts (texts : List String) : (sortTexts texts).Pairwise (· ≤ ·) := by
  have hle (a b : String) : (!decide (b < a)) = true ↔ a ≤ b := by
    rw [Bool.not_eq_true', decide_eq_false_iff_not]
    rfl
  refine (List.pairwise_mergeSort ?_ ?_ texts).imp fun h => (hle _ _).mp h
  · intro a b c hab hbc
    rw [hle] at hab hbc ⊢
    exact String.le_trans hab hbc
  · intro a b
    rw [Bool.or_eq_true, hle, hle]
    exact String.le_total a b

theorem pairwise_dropRepeated {texts : List String} (h : texts.Pairwise (· ≤ ·)) :
    (dropRepeated texts).Pairwise (· < ·) := by
  fun_induction dropRepeated texts with
  | case1 => exact List.Pairwise.nil
  | case2 t => exact List.pairwise_singleton _ _
  | case3 t rest ih => exact ih (List.Pairwise.of_cons h)
  | case4 t u rest hne ih =>
    refine List.Pairwise.cons (fun v hv => ?_) (ih (List.Pairwise.of_cons h))
    rw [mem_dropRepeated] at hv
    have htu : t < u := by
      rw [← String.not_le]
      exact fun hle => hne (String.le_antisymm (List.rel_of_pairwise_cons h List.mem_cons_self) hle)
    rcases List.mem_cons.mp hv with rfl | hv
    · exact htu
    · have huv : u ≤ v := List.rel_of_pairwise_cons (List.Pairwise.of_cons h) hv
      rw [← String.not_le]
      intro hvt
      exact absurd htu (String.not_lt.mpr (String.le_trans huv hvt))

private theorem nodup_dropRepeated (texts : List String) : (dropRepeated (sortTexts texts)).Nodup :=
  (pairwise_dropRepeated (pairwise_sortTexts texts)).imp fun hlt => by
    rintro rfl
    exact String.lt_irrefl _ hlt

end Text

/-! ## Settings for tags inside and outside of test cases -/

def statementsAmong (kind : StatementKind) (ns : List Node) : List Statement :=
  (ns.filterMap Node.statement?).filter (·.kind = kind)

theorem statementsAmong_append (kind : StatementKind) (ns more : List Node) :
    statementsAmong kind (ns ++ more) = statementsAmong kind ns ++ statementsAmong kind more := by
  rw [statementsAmong, List.filterMap_append, List.filter_append]
  rfl

private theorem statementsAmong_eq_flatMap (kind : StatementKind) (ns : List Node) :
    statementsAmong kind ns = ns.flatMap fun n => statementsAmong kind [n] := by
  induction ns with
  | nil => rfl
  | cons n ns ih => rw [List.flatMap_cons, ← ih, ← statementsAmong_append, List.singleton_append]

namespace Node

section

variable {β : Type} (stop : BlockKind → Bool) (g : Node → List β)

mutual

/-- All nodes are visited by visiting down to some blocks, and then all that lies below these. -/
theorem flatMap_visited : ∀ n : Node,
    (n.visitedUntil fun _ => false).flatMap g = (n.visitedUntil stop).flatMap fun m =>
      if m.isBlockWith stop then (m.visitedUntil fun _ => false).flatMap g else g m
  | .leaf st => by simp [visitedUntil, isBlockWith]
  | .block kind header body orelse close errors => by
    by_cases hstop : stop kind = true
    · simp [visitedUntil, hstop, isBlockWith]
    · have hclose : (close.toList.map leaf).flatMap g = (close.toList.map leaf).flatMap fun m =>
          if m.isBlockWith stop then (m.visitedUntil fun _ => false).flatMap g else g m := by
        cases close <;> simp [isBlockWith]
      rw [visitedUntil, visitedUntil, if_neg Bool.false_ne_true, if_neg hstop]
      simp only [List.flatMap_cons, List.flatMap_append, flatMap_visitedAll body,
        flatMap_visitedBranch orelse, hclose]
      simp [isBlockWith, hstop]

private theorem flatMap_visitedAll : ∀ ns : List Node,
    (visitedUntilAll (fun _ => false) ns).flatMap g = (visitedUntilAll stop ns).flatMap fun m =>
      if m.isBlockWith stop then (m.visitedUntil fun _ => false).flatMap g else g m
  | [] => rfl
  | n :: ns => by
    rw [visitedUntilAll, visitedUntilAll, List.flatMap_append, List.flatMap_append, flatMap_visited n,
      flatMap_visitedAll ns]

private theorem flatMap_visitedBranch : ∀ n : Option Node,
    (visitedUntilBranch (fun _ => false) n).flatMap g = (visitedUntilBranch stop n).flatMap fun m =>
      if m.isBlockWith stop then (m.visitedUntil fun _ => false).flatMap g else g m
  | none => rfl
  | some n => flatMap_visited n

end

end

end Node

def Statement.tagValues (s : Statement) : List String := (Check.Tag.tagsOf s).map Token.value

namespace Node

def tagSettings (n : Node) : List Statement := statementsAmong .tags n.visited

def ownTags (n : Node) : List String := n.tagSettings.flatMap Statement.tagValues

end Node

namespace Document

def tests (d : Document) : List Node := d.blocksOf .testCase

def besideTests (d : Document) : List Node :=
  d.sections.flatMap (·.visitedUntil fun k => k = .testCase)

def foreignTags (d : Document) : List Statement := statementsAmong .tags d.besideTests

def IsFlat (d : Document) : Prop :=
  ∀ n ∈ d.tests, ∀ m ∈ n.visited.tail, m.isBlock .testCase = false

instance (d : Document) : Decidable d.IsFlat := inferInstanceAs (Decidable (∀ n ∈ _, _))

theorem statementsOf_eq (d : Document) (kind : StatementKind) :
    d.statementsOf kind = statementsAmong kind d.visited := by
  rw [statementsOf, statementsAmong, visited, List.filterMap_flatMap]
  rfl

theorem flatMap_visited {β : Type} (d : Document) (g : Node → List β) :
    d.visited.flatMap g = d.besideTests.flatMap fun m =>
      if m.isBlock .testCase then m.visited.flatMap g else g m := by
  rw [visited, besideTests, List.flatMap_assoc, List.flatMap_assoc]
  apply List.flatMap_congr
  intro s _
  rw [Section.visited, Section.visitedUntil, Section.visitedUntil, List.flatMap_append,
    List.flatMap_append, Node.flatMap_visitedAll fun k => k = .testCase]
  congr 1
  cases s.header <;> simp [Node.isBlock, Node.isBlockWith]

private theorem filter_eq_flatMap {α : Type} (p : α → Bool) (xs : List α) :
    xs.filter p = xs.flatMap fun x => if p x then [x] else [] := by
  induction xs with
  | nil => rfl
  | cons x xs ih => by_cases hx : p x = true <;> simp [hx, ih]

theorem tests_eq {d : Document} (h : d.IsFlat) :
    d.tests = d.besideTests.filter (·.isBlock .testCase) := by
  have htests : d.tests = d.besideTests.flatMap fun m =>
      if m.isBlock .testCase then m.visited.filter (·.isBlock .testCase) else [] := by
    rw [tests, blocksOf, filter_eq_flatMap, flatMap_visited]
    apply List.flatMap_congr
    intro m _
    split
    · rw [← filter_eq_flatMap]
    · rfl
  -- Of the nodes that a test case starts, it alone is a test case.
  have hone : ∀ m ∈ d.besideTests, m.isBlock .testCase = true →
      m.visited.filter (·.isBlock .testCase) = [m] := by
    intro m hm htest
    have hself : m ∈ m.visited.filter (·.isBlock .testCase) := by
      rw [m.visited_eq_cons, List.filter_cons_of_pos htest]
      exact List.mem_cons_self
    have hmem : m ∈ d.tests := by
      rw [htests]
      exact List.mem_flatMap.mpr ⟨m, hm, by rw [if_pos htest]; exact hself⟩
    rw [m.visited_eq_cons, List.filter_cons_of_pos htest, List.filter_eq_nil_iff.mpr]
    intro n hn
    rw [h m hmem n hn]
    exact Bool.false_ne_true
  rw [htests, filter_eq_flatMap]
  apply List.flatMap_congr
  intro m hm
  split
  · next htest => exact hone m hm htest
  · rfl

/-- The [Tags] are those of the test cases and those that stand in none. -/
theorem perm_tags {d : Document} (h : d.IsFlat) :
    (d.statementsOf .tags).Perm (d.tests.flatMap Node.tagSettings ++ d.foreignTags) := by
  have hsettings : d.statementsOf .tags = d.besideTests.flatMap fun m =>
      (if m.isBlock .testCase then m.tagSettings else []) ++ statementsAmong .tags [m] := by
    rw [statementsOf_eq, statementsAmong_eq_flatMap, flatMap_visited]
    apply List.flatMap_congr
    intro m _
    split
    · next htest =>
      -- A test case is a block, so it is no setting itself.
      have hblock : statementsAmong .tags [m] = [] := by
        cases m with
        | leaf st => cases htest
        | block kind header body orelse close errors => rfl
      rw [hblock, List.append_nil, Node.tagSettings, ← statementsAmong_eq_flatMap]
    · rfl
  have htests : d.tests.flatMap Node.tagSettings =
      d.besideTests.flatMap fun m => if m.isBlock .testCase then m.tagSettings else [] := by
    rw [tests_eq h, filter_eq_flatMap, List.flatMap_assoc]
    apply List.flatMap_congr
    intro m _
    split <;> simp
  rw [hsettings, htests, foreignTags, statementsAmong_eq_flatMap]
  exact (List.flatMap_append_perm _ _ _).symm

end Document

/-! ## Tags that test cases share, and tags that settings share -/

namespace Document

def forceTags? (d : Document) : Option Statement := (d.statementsOf .forceTags).getLast?

def forcedTags (d : Document) : List String := (d.forceTags?.map Statement.tagValues).getD []

/-- A tag that stands in all of some lists, and is not forced. -/
def IsInAll (d : Document) (lists : List (List String)) (tag : String) : Prop :=
  (∀ tags ∈ lists, tag ∈ tags) ∧ tag ∉ d.forcedTags

instance (d : Document) (lists : List (List String)) (tag : String) : Decidable (d.IsInAll lists tag) :=
  inferInstanceAs (Decidable (_ ∧ _))

/-- The entry of rule 0605 for tags that should be in Force Tags. -/
def forceEntry (d : Document) (tags : List String) : String × String × Int × Int :=
  ("0605", "All tests in suite share those tags: \"" ++ ", ".intercalate tags ++
    "\". You can define them in Force Tags in suite settings instead",
    anchor ((d.forceTags?.map Statement.line).getD d.line), 1)

/-- One entry lists the given tags, each once and in any order. -/
def Advises (d : Document) (isListed : String → Prop) (entries : List (String × String × Int × Int)) :
    Prop :=
  ∃ tags : List String, tags.Nodup ∧ (∀ tag, tag ∈ tags ↔ isListed tag) ∧ entries = [d.forceEntry tags]

/-- A tag that all test cases have in their [Tags]. -/
def IsShared (d : Document) : String → Prop := d.IsInAll (d.tests.map Node.ownTags)

def SharesTags (d : Document) : Prop :=
  2 ≤ d.tests.length ∧ (∀ n ∈ d.tests, n.tagSettings ≠ []) ∧ ∃ tag, d.IsShared tag

/-- What is due under rule 0605. -/
def DueForTags (d : Document) (entries : List (String × String × Int × Int)) : Prop :=
  (d.SharesTags → d.Advises d.IsShared entries) ∧ (¬ d.SharesTags → entries = [])

/-- A tag that stands in all [Tags], be they of test cases or of keywords. -/
def SeemsShared (d : Document) : String → Prop :=
  d.IsInAll ((d.statementsOf .tags).map Statement.tagValues)

def SeemsToShareTags (d : Document) : Prop :=
  2 ≤ d.tests.length ∧ (d.statementsOf .tags).length = d.tests.length ∧ ∃ tag, d.SeemsShared tag

/-- What is reported under rule 0605. -/
def GivenForTags (d : Document) (entries : List (String × String × Int × Int)) : Prop :=
  (d.SeemsToShareTags → d.Advises d.SeemsShared entries) ∧ (¬ d.SeemsToShareTags → entries = [])

theorem Advises.ne_nil {d : Document} {isListed : String → Prop}
    {entries : List (String × String × Int × Int)} (h : d.Advises isListed entries) : entries ≠ [] := by
  obtain ⟨tags, -, -, rfl⟩ := h
  exact List.cons_ne_nil _ _

private theorem length_flatMap_of_le_one {α β : Type} {f : α → List β} {xs : List α}
    (h : ∀ x ∈ xs, (f x).length ≤ 1) :
    (xs.flatMap f).length ≤ xs.length ∧ ((xs.flatMap f).length = xs.length ↔ ∀ x ∈ xs, f x ≠ []) := by
  induction xs with
  | nil => simp
  | cons x xs ih =>
    rw [List.forall_mem_cons] at h
    obtain ⟨hle, heq⟩ := ih h.2
    rw [List.flatMap_cons, List.length_append, List.length_cons, List.forall_mem_cons, ← heq,
      ← List.length_pos_iff]
    omega

section

variable {d : Document} (hflat : d.IsFlat) (hone : ∀ n ∈ d.tests, n.tagSettings.length ≤ 1)
include hflat hone

/-- Where each test case has its [Tags] and no other [Tags] stands anywhere, the [Tags] share the tags that
the test cases share. -/
theorem seemsShared_iff (hforeign : d.foreignTags = []) (hall : ∀ n ∈ d.tests, n.tagSettings ≠ [])
    (tag : String) : d.SeemsShared tag ↔ d.IsShared tag := by
  have hperm := d.perm_tags hflat
  rw [hforeign, List.append_nil] at hperm
  have hown : ∀ n ∈ d.tests, (tag ∈ n.ownTags ↔ ∀ st ∈ n.tagSettings, tag ∈ st.tagValues) := by
    intro n hn
    have hpos := List.length_pos_iff.mpr (hall n hn)
    obtain ⟨st, hst⟩ := List.length_eq_one_iff.mp (Nat.le_antisymm (hone n hn) hpos)
    simp [Node.ownTags, hst]
  refine and_congr_left fun _ => ?_
  simp only [List.forall_mem_map, hperm.mem_iff, List.mem_flatMap]
  constructor
  · exact fun h n hn => (hown n hn).mpr fun st hst => h st ⟨n, hn, hst⟩
  · rintro h st ⟨n, hn, hst⟩
    exact (hown n hn).mp (h n hn) st hst

private theorem seemsToShareTags_iff (hforeign : d.foreignTags = []) : d.SeemsToShareTags ↔ d.SharesTags := by
  have hlength := (d.perm_tags hflat).length_eq
  rw [hforeign, List.append_nil] at hlength
  rw [SeemsToShareTags, SharesTags, hlength, (length_flatMap_of_le_one hone).2]
  refine and_congr_right fun _ => and_congr_right fun hall => ?_
  exact exists_congr (seemsShared_iff hflat hone hforeign hall)

/-- With [Tags] outside of test cases, the test cases do not share tags where the [Tags] seem to. -/
theorem not_seemsToShareTags (hforeign : d.foreignTags ≠ []) (hshares : d.SharesTags) :
    ¬ d.SeemsToShareTags := by
  rintro ⟨-, hlength, -⟩
  -- The test cases have one setting each, and the foreign ones come on top.
  have hall := (length_flatMap_of_le_one hone).2.mpr hshares.2.1
  have hpos := List.length_pos_iff.mpr hforeign
  rw [(d.perm_tags hflat).length_eq, List.length_append] at hlength
  omega

/-- What is reported is due exactly if no [Tags] stands outside of test cases, or there is nothing to share in
either sense. -/
theorem dueForTags_iff {entries : List (String × String × Int × Int)} (hgiven : d.GivenForTags entries) :
    d.DueForTags entries ↔ d.foreignTags = [] ∨ ¬ d.SharesTags ∧ ¬ d.SeemsToShareTags := by
  by_cases hforeign : d.foreignTags = []
  · have hiff := seemsToShareTags_iff hflat hone hforeign
    refine iff_of_true ⟨fun hshares => ?_, fun hnot => hgiven.2 (mt hiff.mp hnot)⟩ (Or.inl hforeign)
    obtain ⟨tags, hnodup, hmem, hentries⟩ := hgiven.1 (hiff.mpr hshares)
    exact ⟨tags, hnodup, fun tag => (hmem tag).trans
      (seemsShared_iff hflat hone hforeign hshares.2.1 tag), hentries⟩
  · rw [or_iff_right hforeign]
    constructor
    · intro hdue
      have hnot : ¬ d.SharesTags := fun hshares => (hdue.1 hshares).ne_nil
        (hgiven.2 (not_seemsToShareTags hflat hone hforeign hshares))
      exact ⟨hnot, fun hseems => (hgiven.1 hseems).ne_nil (hdue.2 hnot)⟩
    · rintro ⟨hnot, hseems⟩
      exact ⟨fun hshares => absurd hshares hnot, fun _ => hgiven.2 hseems⟩

end

end Document

/-! ## What is reported -/

namespace Check.Tag

namespace Scope

/-- The tests and settings that a scope holds are those among the given nodes. -/
structure Holds (scope : Scope) (ns : List Node) : Prop where
  tests : scope.tests = (ns.filter (·.isBlock .testCase)).length
  tagLists : scope.tagLists = (statementsAmong .tags ns).map Statement.tagValues
  forced : scope.forced = ((statementsAmong .forceTags ns).getLast?.map Statement.tagValues).getD []
  forcedLine : scope.forcedLine = (statementsAmong .forceTags ns).getLast?.map Statement.line

theorem holds_start (t : Trace) : (start t).Holds [] := ⟨rfl, rfl, rfl, rfl⟩

theorem Holds.within {scope : Scope} {ns : List Node} (h : scope.Holds ns) (inKeywords : Bool) :
    (scope.within inKeywords).Holds ns := ⟨h.tests, h.tagLists, h.forced, h.forcedLine⟩

theorem Holds.skip {scope : Scope} {ns : List Node} (h : scope.Holds ns) {n : Node}
    (htest : n.isBlock .testCase = false)
    (hsetting : ∀ kind ∈ [StatementKind.tags, .forceTags], n.isStatement kind = false) :
    scope.Holds (ns ++ [n]) := by
  have hnone {kind : StatementKind} (hkind : kind ∈ [StatementKind.tags, .forceTags]) :
      statementsAmong kind (ns ++ [n]) = statementsAmong kind ns := by
    have hn := hsetting kind hkind
    rw [statementsAmong_append]
    cases n <;> simp_all [statementsAmong, Node.statement?, Node.isStatement]
  refine ⟨?_, ?_, ?_, ?_⟩
  · rw [List.filter_append, List.filter_cons_of_neg (by simp [htest]), List.filter_nil, List.append_nil]
    exact h.tests
  · rw [hnone (by decide)]
    exact h.tagLists
  · rw [hnone (by decide)]
    exact h.forced
  · rw [hnone (by decide)]
    exact h.forcedLine

theorem Holds.visit_leaf {scope : Scope} {ns : List Node} (h : scope.Holds ns) (s : Statement) :
    (scope.visit (.leaf s)).2.Holds (ns ++ [.leaf s]) := by
  have hadd (kind : StatementKind) : statementsAmong kind (ns ++ [.leaf s]) =
      statementsAmong kind ns ++ if s.kind = kind then [s] else [] := by
    rw [statementsAmong_append]
    congr 1
    by_cases hkind : s.kind = kind <;> simp [statementsAmong, Node.statement?, hkind]
  have htests : ((ns ++ [Node.leaf s]).filter (·.isBlock .testCase)).length = scope.tests := by
    rw [h.tests, List.filter_append]
    exact congrArg List.length (List.append_nil _)
  simp only [Scope.visit]
  split
  · next hkind =>
    refine ⟨htests.symm, ?_, ?_, ?_⟩ <;> rw [hadd, hkind]
    · simpa using h.tagLists
    · simp [Statement.tagValues]
    · simp
  · next hkind =>
    have hskip : scope.Holds (ns ++ [.leaf s]) := h.skip rfl (by simp [Node.isStatement, hkind])
    exact ⟨hskip.tests, hskip.tagLists, hskip.forced, hskip.forcedLine⟩
  · next hkind =>
    refine ⟨htests.symm, ?_, ?_, ?_⟩ <;> rw [hadd, hkind]
    · simp [h.tagLists, Statement.tagValues]
    · simpa using h.forced
    · simpa using h.forcedLine
  · next hforce _ htags =>
    exact h.skip rfl (by simpa [Node.isStatement] using ⟨htags, hforce⟩)

theorem Holds.visit {scope : Scope} {ns : List Node} (h : scope.Holds ns) (n : Node) :
    (scope.visit n).2.Holds (ns ++ [n]) := by
  cases n with
  | block kind header body orelse close errors =>
    by_cases hkind : kind = .testCase
    · subst hkind
      have hnone (k : StatementKind) :
          statementsAmong k (ns ++ [.block .testCase header body orelse close errors]) =
            statementsAmong k ns := by
        rw [statementsAmong_append]
        exact List.append_nil _
      refine ⟨?_, ?_, ?_, ?_⟩
      · rw [List.filter_append, List.length_append, ← h.tests]
        rfl
      · rw [hnone]
        exact h.tagLists
      · rw [hnone]
        exact h.forced
      · rw [hnone]
        exact h.forcedLine
    · have hskip : scope.Holds (ns ++ [.block kind header body orelse close errors]) :=
        h.skip (by simpa [Node.isBlock, Node.isBlockWith] using hkind) (by simp [Node.isStatement])
      cases kind with
      | testCase => exact absurd rfl hkind
      | _ => exact hskip
  | leaf s => exact h.visit_leaf s

private theorem Holds.visitAll {scope : Scope} {ns : List Node} (h : scope.Holds ns) (more : List Node) :
    (scope.visitAll more).2.Holds (ns ++ more) := by
  induction more generalizing scope ns with
  | nil => simpa [Scope.visitAll] using h
  | cons n more ih =>
    rw [List.append_cons]
    exact ih (h.visit n)

theorem Holds.visitSections {scope : Scope} {ns : List Node} (h : scope.Holds ns) (ss : List Section) :
    (scope.visitSections ss).2.Holds (ns ++ ss.flatMap Section.visited) := by
  induction ss generalizing scope ns with
  | nil => simpa [Scope.visitSections] using h
  | cons s ss ih =>
    have hsection : (scope.visitSection s).2.Holds (ns ++ s.visited) := by
      unfold visitSection
      split
      · exact ((h.within true).visitAll s.visited).within false
      · exact h.visitAll s.visited
    rw [List.flatMap_cons, ← List.append_assoc]
    exact ih hsection

end Scope

def OnSetting (f : Finding) : Prop :=
  f.rule = .emptyTags ∧ (∃ advice, f.args = [advice]) ∨ f.rule = .tagAlreadySetInForceTags ∧ f.args = []

theorem onSetting_inTags (scope : Scope) (s : Statement) : ∀ f ∈ inTags scope s, OnSetting f := by
  intro f hf
  rcases List.mem_append.mp hf with hf | hf
  · split at hf
    · rw [List.mem_singleton.mp hf]
      exact Or.inl ⟨rfl, _, rfl⟩
    · cases hf
  · obtain ⟨t, -, rfl⟩ := List.mem_map.mp hf
    exact Or.inr ⟨rfl, rfl⟩

theorem onSetting_visit (scope : Scope) (n : Node) : ∀ f ∈ (scope.visit n).1, OnSetting f := by
  intro f hf
  unfold Scope.visit at hf
  split at hf
  · cases hf
  · cases hf
  · next s =>
    simp only at hf
    split at hf
    · cases hf
    · cases hf
    · exact onSetting_inTags scope s f hf
    · cases hf

theorem onSetting_visitAll (scope : Scope) (ns : List Node) :
    ∀ f ∈ (scope.visitAll ns).1, OnSetting f := by
  induction ns generalizing scope with
  | nil => simp [Scope.visitAll]
  | cons n ns ih =>
    intro f hf
    rcases List.mem_append.mp hf with hf | hf
    · exact onSetting_visit scope n f hf
    · exact ih _ f hf

private theorem onSetting_visitSection (scope : Scope) (s : Section) :
    ∀ f ∈ (scope.visitSection s).1, OnSetting f := by
  unfold Scope.visitSection
  split
  · exact onSetting_visitAll _ _
  · exact onSetting_visitAll _ _

theorem onSetting_visitSections (scope : Scope) (ss : List Section) :
    ∀ f ∈ (scope.visitSections ss).1, OnSetting f := by
  induction ss generalizing scope with
  | nil => simp [Scope.visitSections]
  | cons s ss ih =>
    intro f hf
    rcases List.mem_append.mp hf with hf | hf
    · exact onSetting_visitSection scope s f hf
    · exact ih _ f hf

theorem OnSetting.fills {f : Finding} (h : OnSetting f) : f.rule ∈ Checker.tagScopes.keys ∧ f.Fills := by
  rcases h with ⟨hrule, advice, hargs⟩ | ⟨hrule, hargs⟩
  · exact ⟨by rw [hrule]; decide, Finding.fills_of_template hrule hargs rfl rfl (.cons trivial .nil)⟩
  · exact ⟨by rw [hrule]; decide, Finding.fills_of_template hrule hargs rfl rfl .nil⟩

theorem mem_common_iff {scope : Scope} {d : Document} (h : scope.Holds d.visited)
    (hsome : scope.tagLists ≠ []) (tag : String) : tag ∈ scope.common ↔ d.SeemsShared tag := by
  have hforced : scope.forced = d.forcedTags := by
    rw [h.forced, ← d.statementsOf_eq]
    rfl
  rw [Document.SeemsShared, d.statementsOf_eq, ← h.tagLists, Document.IsInAll, Scope.common]
  cases hlists : scope.tagLists with
  | nil => exact absurd hlists hsome
  | cons first more =>
    rw [Text.mem_dropRepeated, Text.sortTexts, List.mem_mergeSort, List.mem_filter, List.forall_mem_cons]
    simp [hforced, and_assoc]

private theorem nodup_common (scope : Scope) : scope.common.Nodup := by
  unfold Scope.common
  split
  · exact List.nodup_nil
  · exact Text.nodup_dropRepeated _

def forceFinding (d : Document) (tags : List String) : Finding :=
  found .couldBeForcedTags [.string (", ".intercalate tags)]
    (anchor ((d.forceTags?.map Statement.line).getD d.line)) 1

/-- What can be said at the end: Default Tags may be of no use, and tags may be forced. -/
theorem summary_eq (arrange : List String → List String) {scope : Scope} {d : Document}
    (h : scope.Holds d.visited) :
    ∃ rest, (d.SeemsToShareTags →
        scope.summary arrange d = rest ++ [forceFinding d (arrange scope.common)]) ∧
      (¬ d.SeemsToShareTags → scope.summary arrange d = rest) ∧
      ∀ f ∈ rest, f.rule = .unnecessaryDefaultTags ∧ f.args = [] := by
  have htests : scope.tests = d.tests.length := h.tests
  have hlength : scope.tagLists.length = (d.statementsOf .tags).length := by
    rw [h.tagLists, List.length_map, d.statementsOf_eq]
  have hline : scope.forcedLine = d.forceTags?.map Statement.line := by
    rw [h.forcedLine, ← d.statementsOf_eq]
    rfl
  rw [Scope.summary, hline, hlength, htests]
  by_cases hfits : scope.tagLists ≠ [] ∧ (d.statementsOf .tags).length = d.tests.length
  · have hseems : d.SeemsToShareTags ↔
        ¬ (decide (d.tests.length < 2) || scope.common.isEmpty) = true := by
      rw [Document.SeemsToShareTags, and_iff_right hfits.2, Bool.or_eq_true, not_or, decide_eq_true_iff,
        Nat.not_lt, List.isEmpty_iff, List.eq_nil_iff_forall_not_mem, not_forall_not]
      simp only [mem_common_iff h hfits.1]
    rw [if_neg (by simp [hfits])]
    refine ⟨if scope.defaults.isEmpty then []
      else [found .unnecessaryDefaultTags [] (anchor (scope.trace.defaultsLine.getD d.line)) 1],
      fun hshared => ?_, fun hnot => ?_, ?_⟩
    · rw [if_neg (hseems.mp hshared)]
      rfl
    · rw [if_pos (not_not.mp (mt hseems.mpr hnot)), List.append_nil]
    · intro f hf
      split at hf
      · cases hf
      · rw [List.mem_singleton.mp hf]
        exact ⟨rfl, rfl⟩
  · have hnot : ¬ d.SeemsToShareTags := by
      rintro ⟨hmany, hcount, -⟩
      refine hfits ⟨?_, hcount⟩
      rw [← List.length_pos_iff]
      omega
    refine ⟨[], fun hseems => absurd hseems hnot, fun _ => if_pos ?_, by simp⟩
    cases hempty : scope.tagLists <;> simp_all

theorem fills_forceFinding (d : Document) (tags : List String) :
    (forceFinding d tags).Fills ∧ (forceFinding d tags).entry = d.forceEntry tags := by
  have hfilled : (forceFinding d tags).Fills ∧ (forceFinding d tags).message =
      "All tests in suite share those tags: \"" ++ (", ".intercalate tags ++
        "\". You can define them in Force Tags in suite settings instead") :=
    Finding.fills_of_wording (.plain rfl rfl (.text (.last rfl rfl)))
      String.ofList_append.symm rfl
  refine ⟨hfilled.1, ?_⟩
  rw [Finding.entry, hfilled.2, Document.forceEntry, String.append_assoc]
  rfl

private theorem fills_unnecessaryDefaultTags {f : Finding} (hrule : f.rule = .unnecessaryDefaultTags)
    (hargs : f.args = []) : f.Fills :=
  Finding.fills_of_template hrule hargs rfl rfl .nil

/-- The findings of a document: all can be filled in, and those of 0605 among them are what [Tags] give rise
to. -/
theorem checkScopes_spec (host : Host) (t : Trace) (d : Document) :
    (∀ f ∈ (checkScopes host.arrange t d).1, f.rule ∈ Checker.tagScopes.keys ∧ f.Fills) ∧
      d.GivenForTags
        ((RuleKey.couldBeForcedTags.among (checkScopes host.arrange t d).1).map Finding.entry) := by
  have hholds : ((Scope.start t).visitSections d.sections).2.Holds d.visited :=
    (Scope.holds_start t).visitSections d.sections
  obtain ⟨rest, hshared, hnot, hrest⟩ := summary_eq host.arrange hholds
  have hvisits := onSetting_visitSections (.start t) d.sections
  generalize hscope : ((Scope.start t).visitSections d.sections).2 = scope at hholds hshared hnot
  have hcheck : (checkScopes host.arrange t d).1 =
      ((Scope.start t).visitSections d.sections).1 ++ scope.summary host.arrange d := by
    rw [← hscope]
    rfl
  have hother : RuleKey.couldBeForcedTags.among ((Scope.start t).visitSections d.sections).1 = [] := by
    refine RuleKey.among_eq_nil fun f hf => ?_
    rcases hvisits f hf with ⟨hrule, -⟩ | ⟨hrule, -⟩ <;> simp [hrule]
  have hdefaults : RuleKey.couldBeForcedTags.among rest = [] := by
    refine RuleKey.among_eq_nil fun f hf => ?_
    simp [(hrest f hf).1]
  have hfills : ∀ f ∈ rest, f.rule ∈ Checker.tagScopes.keys ∧ f.Fills := by
    intro f hf
    obtain ⟨hrule, hargs⟩ := hrest f hf
    exact ⟨by rw [hrule]; decide, fills_unnecessaryDefaultTags hrule hargs⟩
  rw [hcheck, List.forall_mem_append, and_iff_right fun f hf => (hvisits f hf).fills,
    RuleKey.among_append, hother, List.nil_append]
  by_cases hseems : d.SeemsToShareTags
  · have hperm := host.arrange_perm scope.common
    rw [hshared hseems, RuleKey.among_append, hdefaults]
    refine ⟨List.forall_mem_append.mpr ⟨hfills, List.forall_mem_singleton.mpr
      ⟨show RuleKey.couldBeForcedTags ∈ _ by decide, (fills_forceFinding d _).1⟩⟩,
      fun _ => ⟨host.arrange scope.common, hperm.nodup_iff.mpr (nodup_common scope), fun tag => ?_,
        congrArg ([·]) (fills_forceFinding d _).2⟩, fun hnot => absurd hseems hnot⟩
    have hsome : scope.tagLists ≠ [] := by
      have hlength := congrArg List.length hholds.tagLists
      rw [List.length_map, ← d.statementsOf_eq, hseems.2.1] at hlength
      rw [← List.length_pos_iff, hlength]
      exact Nat.lt_of_lt_of_le Nat.two_pos hseems.1
    rw [hperm.mem_iff, mem_common_iff hholds hsome]
  · rw [hnot hseems, hdefaults]
    exact ⟨hfills, fun h => absurd h hseems, fun _ => rfl⟩

end Check.Tag

namespace Options

open Check.Tag

/-- Where could-be-forced-tags (0605) is on, the checker gives the advice that [Tags] give rise to. -/
theorem scan_tagScopes (o : Options) {host : Host} {notes : List String} {s : Setup}
    (h : o.setup host = (notes, .ok s)) (hon : s.linter.registry.enables "0605" = true)
    (memory : Memory) (subject : Subject) :
    ∃ issues : List Issue, (s.linter.withMemory memory).scan .tagScopes subject = .ok issues ∧
      subject.document.GivenForTags ((Issue.among [.couldBeForcedTags] issues).map Issue.entry) := by
  have hkey : RuleKey.couldBeForcedTags ∈ Checker.tagScopes.keys := by decide
  obtain ⟨hfills, hadvice⟩ := checkScopes_spec host memory.tags subject.document
  obtain ⟨issues, hissues, hentries⟩ := o.scan_only h memory hkey hon rfl hfills
  exact ⟨issues, hissues, hentries ▸ hadvice⟩

/-- Rule 0605 is reported for the tags that all [Tags] share, if there are as many [Tags] as test cases, and
lists each of these tags once. Where no test case lies in another one and none has two [Tags], this is what is
due for the tags that the test cases share exactly if no [Tags] stands outside of test cases, or neither the
test cases share tags nor the [Tags] seem to. -/
theorem shared_tags_iff (o : Options) {host : Host} {notes : List String} {s : Setup}
    (h : o.setup host = (notes, .ok s)) (hon : s.linter.registry.enables "0605" = true)
    (memory : Memory) (subject : Subject) (hflat : subject.document.IsFlat)
    (hone : ∀ n ∈ subject.document.tests, n.tagSettings.length ≤ 1) :
    ∃ issues : List Issue, (s.linter.withMemory memory).scan .tagScopes subject = .ok issues ∧
      subject.document.GivenForTags ((Issue.among [.couldBeForcedTags] issues).map Issue.entry) ∧
      (subject.document.DueForTags ((Issue.among [.couldBeForcedTags] issues).map Issue.entry) ↔
        subject.document.foreignTags = [] ∨
          ¬ subject.document.SharesTags ∧ ¬ subject.document.SeemsToShareTags) := by
  obtain ⟨issues, hissues, hgiven⟩ := o.scan_tagScopes h hon memory subject
  exact ⟨issues, hissues, hgiven, Document.dueForTags_iff hflat hone hgiven⟩

end Options

def Node.taggedTest (line : Int) (tags : List String) : Node :=
  .block .testCase ⟨.testCaseName, [⟨.testCaseName, "Test", line, 0⟩], []⟩
    (if tags = [] then []
      else [.leaf ⟨.tags,
        ⟨.tags, "[Tags]", line + 1, 4⟩ :: tags.map (⟨.argument, ·, line + 1, 14⟩), []⟩]) none none []

def Node.taggedKeyword (line : Int) (tags : List String) : Node :=
  .block .keyword ⟨.keywordName, [⟨.keywordName, "Kw", line, 0⟩], []⟩
    [.leaf ⟨.tags, ⟨.tags, "[Tags]", line + 1, 4⟩ :: tags.map (⟨.argument, ·, line + 1, 14⟩), []⟩]
    none none []

def Subject.sharedTags : Subject :=
  ⟨"a.robot", .text [], ⟨none, [
    ⟨.settings, none,
      [.leaf ⟨.forceTags, [⟨.forceTags, "Force Tags", 2, 0⟩, ⟨.argument, "c", 2, 14⟩], []⟩]⟩,
    ⟨.testCases, none, [.taggedTest 4 ["b", "a", "c"], .taggedTest 6 ["a", "c", "d", "b"]]⟩]⟩⟩

def Subject.besideTaggedKeyword (tags other : List String) : Subject :=
  ⟨"a.robot", .text [], ⟨none, [⟨.testCases, none, [.taggedTest 2 tags, .taggedTest 4 other]⟩,
    ⟨.keywords, none, [.taggedKeyword 8 ["a"]]⟩]⟩⟩

namespace Options

open Check.Tag

theorem shared_tags_iff_sharedTags :
    ∃ (s : Setup) (issues : List Issue), standard.setup .plain = ([], .ok s) ∧
      s.linter.registry.enables "0605" = true ∧ Subject.sharedTags.document.IsFlat ∧
      (∀ n ∈ Subject.sharedTags.document.tests, n.tagSettings.length ≤ 1) ∧
      s.linter.scan .tagScopes .sharedTags = .ok issues ∧
      Subject.sharedTags.document.Advises (fun tag => tag = "a" ∨ tag = "b")
        ((Issue.among [.couldBeForcedTags] issues).map Issue.entry) := by
  have hsetup := setup_standard .plain
  have hon := enables_standard hsetup .couldBeForcedTags
  have hflat : Subject.sharedTags.document.IsFlat := by decide +kernel
  have hone : ∀ n ∈ Subject.sharedTags.document.tests, n.tagSettings.length ≤ 1 := by decide +kernel
  have hown : Subject.sharedTags.document.tests.map Node.ownTags =
      [["b", "a", "c"], ["a", "c", "d", "b"]] := by decide +kernel
  have hforced : Subject.sharedTags.document.forcedTags = ["c"] := by decide +kernel
  have hshared (tag : String) : Subject.sharedTags.document.IsShared tag ↔ tag = "a" ∨ tag = "b" := by
    rw [Document.IsShared, Document.IsInAll, hown, hforced, List.forall_mem_cons,
      List.forall_mem_singleton]
    simp only [List.mem_cons, List.not_mem_nil, or_false]
    grind
  have hshares : Subject.sharedTags.document.SharesTags :=
    ⟨by decide +kernel, by decide +kernel, "a", (hshared "a").mpr (Or.inl rfl)⟩
  obtain ⟨issues, hissues, -, hdue⟩ := shared_tags_iff standard hsetup hon .blank .sharedTags hflat hone
  refine ⟨_, issues, hsetup, hon, hflat, hone, hissues, ?_⟩
  obtain ⟨tags, hnodup, hmem, hentries⟩ := (hdue.mpr (Or.inl (by decide +kernel))).1 hshares
  exact ⟨tags, hnodup, fun tag => (hmem tag).trans (hshared tag), hentries⟩

/-- A keyword with [Tags] hides that the test cases share tags, and stands in for a test case without. -/
theorem keyword_tags_taken_for_test :
    ∃ (s : Setup) (issues : List Issue), standard.setup .plain = ([], .ok s) ∧
      s.linter.registry.enables "0605" = true ∧
      s.linter.scan .tagScopes (.besideTaggedKeyword ["a"] ["a"]) = .ok [] ∧
      ¬ (Subject.besideTaggedKeyword ["a"] ["a"]).document.DueForTags [] ∧
      s.linter.scan .tagScopes (.besideTaggedKeyword ["a"] []) = .ok issues ∧
      ¬ (Subject.besideTaggedKeyword ["a"] []).document.DueForTags
        ((Issue.among [.couldBeForcedTags] issues).map Issue.entry) := by
  have hsetup := setup_standard .plain
  have hon := enables_standard hsetup .couldBeForcedTags
  obtain ⟨issues, hissues, hgiven⟩ := standard.scan_tagScopes hsetup hon .blank
    (.besideTaggedKeyword ["a"] [])
  refine ⟨_, issues, hsetup, hon, ?_, fun hdue => ?_, hissues, fun hdue => ?_⟩
  · rw [Linter.scan_tuned]
    rfl
  · have hshares : (Subject.besideTaggedKeyword ["a"] ["a"]).document.SharesTags :=
      ⟨by decide +kernel, by decide +kernel, "a", show Document.IsInAll _ _ "a" by decide +kernel⟩
    exact (hdue.1 hshares).ne_nil rfl
  · have hlacking : ¬ ∀ n ∈ (Subject.besideTaggedKeyword ["a"] []).document.tests,
        n.tagSettings ≠ [] := by decide +kernel
    have hseems : (Subject.besideTaggedKeyword ["a"] []).document.SeemsToShareTags :=
      ⟨by decide +kernel, by decide +kernel, "a", show Document.IsInAll _ _ "a" by decide +kernel⟩
    exact (hgiven.1 hseems).ne_nil (hdue.2 fun hshares => hlacking hshares.2.1)

end Options

end SuiteLint
