import SuiteLint.Proofs.SharedTags

/-!
# Tags that Force Tags has set already

The tags of [Tags] are compared with those that are forced by then, so the order of the sections matters. It
makes no difference exactly if no test case in another section has a forced tag.
-/

namespace SuiteLint

/-! ## Tags and what is forced before them -/

def forcedAmong (ns : List Node) : List String :=
  ((statementsAmong .forceTags ns).getLast?.map Statement.tagValues).getD []

theorem forcedAmong_congr {ns others : List Node}
    (h : statementsAmong .forceTags ns = statementsAmong .forceTags others) :
    forcedAmong ns = forcedAmong others := by
  rw [forcedAmong, h, forcedAmong]

def Node.tags (n : Node) : List Token := (statementsAmong .tags [n]).flatMap Check.Tag.tagsOf

/-- A tag in a setting. -/
structure TagUse where
  tag : Token
  /-- The setting lies in a test case. -/
  inTest : Bool
  /-- The tags that are forced before it. -/
  forced : List String

namespace TagUse

def isReported (u : TagUse) : Bool := u.forced.contains u.tag.value

/-- What is said of a tag that is forced already. -/
def entry (u : TagUse) : String × String × Int × Int :=
  ("0606", "This tag is already set by Force Tags in suite settings", u.tag.line, u.tag.column + 1)

/-- The tags that nodes set, in order. With each node goes whether it lies in a test case, and other nodes
come before. -/
def after (before : List Node) : List (Node × Bool) → List TagUse
  | [] => []
  | p :: ps => p.1.tags.map (⟨·, p.2, forcedAmong before⟩) ++ after (before ++ [p.1]) ps

theorem after_append (before : List Node) (ps qs : List (Node × Bool)) :
    after before (ps ++ qs) = after before ps ++ after (before ++ ps.map Prod.fst) qs := by
  induction ps generalizing before with
  | nil => simp [after]
  | cons p ps ih => simp [after, ih]

theorem after_congr {before others : List Node}
    (h : statementsAmong .forceTags before = statementsAmong .forceTags others)
    (ps : List (Node × Bool)) : after before ps = after others ps := by
  induction ps generalizing before others with
  | nil => rfl
  | cons p ps ih =>
    have hnext : statementsAmong .forceTags (before ++ [p.1]) =
        statementsAmong .forceTags (others ++ [p.1]) := by
      rw [statementsAmong_append, statementsAmong_append, h]
    rw [after, after, forcedAmong_congr h, ih hnext]

theorem forced_of_mem {before : List Node} {ps : List (Node × Bool)} {u : TagUse}
    (h : u ∈ after before ps) :
    ∃ ns more, ps.map Prod.fst = ns ++ more ∧ u.forced = forcedAmong (before ++ ns) := by
  induction ps generalizing before with
  | nil => cases h
  | cons p ps ih =>
    rcases List.mem_append.mp h with h | h
    · obtain ⟨t, -, rfl⟩ := List.mem_map.mp h
      exact ⟨[], _, rfl, by rw [List.append_nil]⟩
    · obtain ⟨ns, more, hsplit, hforced⟩ := ih h
      refine ⟨p.1 :: ns, more, ?_, ?_⟩
      · rw [List.map_cons, hsplit, List.cons_append]
      · rw [hforced, List.append_assoc, List.singleton_append]

def inTests (ps : List (Node × Bool)) : List Token := ps.flatMap fun p => if p.2 then p.1.tags else []

theorem map_tag_filter (q : Token → Bool) (before : List Node) (ps : List (Node × Bool)) :
    ((after before ps).filter fun u => u.inTest && q u.tag).map tag = (inTests ps).filter q := by
  induction ps generalizing before with
  | nil => rfl
  | cons p ps ih =>
    have hcons : inTests (p :: ps) = (if p.2 then p.1.tags else []) ++ inTests ps := List.flatMap_cons
    rw [after, List.filter_append, List.map_append, ih, hcons, List.filter_append, List.filter_map,
      List.map_map]
    congr 1
    cases p.2 with
    | true => simp [Function.comp_def]
    | false => simp

/-- Where the nodes force no tags, the tags that are reported are those forced before all of them. -/
theorem map_tag_reported {before : List Node} {ps : List (Node × Bool)}
    (h : statementsAmong .forceTags (ps.map Prod.fst) = []) :
    ((after before ps).filter fun u => u.inTest && u.isReported).map tag =
      (inTests ps).filter fun t => (forcedAmong before).contains t.value := by
  rw [← map_tag_filter _ before]
  refine congrArg _ (List.filter_congr fun u hu => ?_)
  obtain ⟨ns, more, hsplit, hforced⟩ := forced_of_mem hu
  rw [hsplit, statementsAmong_append] at h
  have hsame : u.forced = forcedAmong before := by
    rw [hforced]
    apply forcedAmong_congr
    rw [statementsAmong_append, (List.append_eq_nil_iff.mp h).1, List.append_nil]
  rw [isReported, hsame]

end TagUse

/-! ## The tags of a document -/

namespace Section

def placed (s : Section) : List (Node × Bool) :=
  (s.visitedUntil fun k => k = .testCase).flatMap fun m =>
    if m.isBlock .testCase then m.visited.map (·, true) else [(m, false)]

theorem map_placed (s : Section) : s.placed.map Prod.fst = s.visited := by
  have hvisited := Document.flatMap_visited ⟨none, [s]⟩ fun n => [n]
  simp only [Document.visited, Document.besideTests, List.flatMap_cons, List.flatMap_nil,
    List.append_nil, List.flatMap_singleton'] at hvisited
  rw [hvisited, placed, List.map_flatMap]
  apply List.flatMap_congr
  intro m _
  split
  · simp [Function.comp_def]
  · rfl

def forcing (s : Section) : List Statement := statementsAmong .forceTags s.visited

def testTags (s : Section) : List Token := TagUse.inTests s.placed

end Section

namespace Document

def tagUses (d : Document) : List TagUse := TagUse.after [] (d.sections.flatMap Section.placed)

def dueTags (d : Document) : List TagUse :=
  d.tagUses.filter fun u => u.inTest && d.forcedTags.contains u.tag.value

def reportedTags (d : Document) : List TagUse := d.tagUses.filter fun u => u.inTest && u.isReported

def ofSection (s : Section) : Document := ⟨none, [s]⟩

def ForcesFirst (d : Document) : Prop := ∀ u ∈ d.dueTags, u.forced ≠ []

instance (d : Document) : Decidable d.ForcesFirst := inferInstanceAs (Decidable (∀ u ∈ _, _))

def ForcesNoneElsewhere (d : Document) : Prop :=
  ∀ s ∈ d.sections, s.forcing = [] → ∀ t ∈ s.testTags, t.value ∉ d.forcedTags

theorem forcedTags_eq (d : Document) : d.forcedTags = forcedAmong d.visited := by
  rw [forcedTags, forceTags?, statementsOf_eq, forcedAmong]

theorem map_placed (ss : List Section) :
    (ss.flatMap Section.placed).map Prod.fst = ss.flatMap Section.visited := by
  rw [List.map_flatMap]
  exact List.flatMap_congr fun s _ => s.map_placed

theorem inTests_placed (ss : List Section) :
    TagUse.inTests (ss.flatMap Section.placed) = ss.flatMap Section.testTags := List.flatMap_assoc

theorem statementsAmong_visited (ss : List Section) :
    statementsAmong .forceTags (ss.flatMap Section.visited) = ss.flatMap Section.forcing := by
  induction ss with
  | nil => rfl
  | cons s ss ih =>
    rw [List.flatMap_cons, statementsAmong_append, ih, List.flatMap_cons]
    rfl

section

variable {d : Document} (hone : (d.statementsOf .forceTags).length ≤ 1)
include hone

/-- With one Force Tags at most, either it comes before a tag or nothing is forced before. -/
theorem forced_of_mem_tagUses {u : TagUse} (h : u ∈ d.tagUses) :
    u.forced = [] ∨ u.forced = d.forcedTags := by
  obtain ⟨ns, more, hsplit, hforced⟩ := TagUse.forced_of_mem h
  rw [map_placed] at hsplit
  rw [List.nil_append] at hforced
  rw [statementsOf_eq, visited, hsplit, statementsAmong_append, List.length_append] at hone
  cases hns : statementsAmong .forceTags ns with
  | nil =>
    left
    rw [hforced, forcedAmong, hns]
    rfl
  | cons st rest =>
    right
    have hmore : statementsAmong .forceTags more = [] := by
      rw [← List.length_eq_zero_iff]
      rw [hns, List.length_cons] at hone
      omega
    rw [hforced, forcedTags_eq]
    apply forcedAmong_congr
    rw [visited, hsplit, statementsAmong_append, hmore, List.append_nil]

theorem reportedTags_eq : d.reportedTags = d.dueTags.filter TagUse.isReported := by
  rw [reportedTags, dueTags, List.filter_filter]
  apply List.filter_congr
  intro u hu
  rcases forced_of_mem_tagUses hone hu with hforced | hforced
  · simp [TagUse.isReported, hforced]
  · simp [TagUse.isReported, hforced]

/-- All forced tags of test cases are reported exactly if they stand behind what forces them. -/
theorem reportedTags_eq_dueTags_iff : d.reportedTags = d.dueTags ↔ d.ForcesFirst := by
  rw [reportedTags_eq hone, List.filter_eq_self]
  refine forall₂_congr fun u hu => ?_
  obtain ⟨hmem, hdue⟩ := List.mem_filter.mp hu
  rw [Bool.and_eq_true] at hdue
  rcases forced_of_mem_tagUses hone hmem with hforced | hforced
  · simp [TagUse.isReported, hforced]
  · rw [TagUse.isReported, hforced]
    refine iff_of_true hdue.2 fun hnil => ?_
    rw [hnil] at hdue
    exact Bool.false_ne_true hdue.2

end

/-! ## Sections in another order -/

private theorem map_tag_dueTags (d : Document) :
    d.dueTags.map TagUse.tag =
      (d.sections.flatMap Section.testTags).filter fun t => d.forcedTags.contains t.value := by
  rw [dueTags, tagUses, TagUse.map_tag_filter fun t => d.forcedTags.contains t.value, inTests_placed]

section

variable {d : Document} (hone : (d.statementsOf .forceTags).length ≤ 1)
include hone

theorem forcedTags_perm {other : Document} (h : other.sections.Perm d.sections) :
    other.forcedTags = d.forcedTags ∧ (other.statementsOf .forceTags).length ≤ 1 := by
  have hperm : (other.statementsOf .forceTags).Perm (d.statementsOf .forceTags) :=
    (h.flatMap_right _).filter _
  refine ⟨?_, hperm.length_eq ▸ hone⟩
  have heq : other.statementsOf .forceTags = d.statementsOf .forceTags := by
    rcases hd : d.statementsOf .forceTags with _ | ⟨st, rest⟩
    · exact List.perm_nil.mp (hd ▸ hperm)
    · rw [hd, List.length_cons] at hone
      obtain rfl : rest = [] := List.length_eq_zero_iff.mp (by omega)
      exact List.perm_singleton.mp (hd ▸ hperm)
  rw [forcedTags, forceTags?, heq]
  rfl

theorem dueTags_perm {other : Document} (h : other.sections.Perm d.sections) :
    (other.dueTags.map TagUse.tag).Perm (d.dueTags.map TagUse.tag) := by
  rw [map_tag_dueTags, map_tag_dueTags, (forcedTags_perm hone h).1]
  exact (h.flatMap_right _).filter _

/-- Where all that is due is reported, so is it in another order exactly if there too the forced tags stand
behind what forces them. -/
theorem reportedTags_perm_iff {other : Document} (h : other.sections.Perm d.sections)
    (hfirst : d.ForcesFirst) :
    (other.reportedTags.map TagUse.tag).Perm (d.reportedTags.map TagUse.tag) ↔ other.ForcesFirst := by
  have hother := (forcedTags_perm hone h).2
  rw [(reportedTags_eq_dueTags_iff hone).mpr hfirst, ← reportedTags_eq_dueTags_iff hother]
  constructor
  · intro hperm
    have hlength := hperm.length_eq.trans (dueTags_perm hone h).length_eq.symm
    rw [List.length_map, List.length_map, reportedTags_eq hother] at hlength
    rw [reportedTags_eq hother]
    exact List.filter_sublist.eq_of_length hlength
  · intro heq
    rw [heq]
    exact dueTags_perm hone h

end

/-- Where one section forces tags, those are reported that would be in it alone, and then the forced ones
of the sections behind. -/
theorem map_tag_reportedTags {d : Document} {before after : List Section} {s : Section}
    (hsections : d.sections = before ++ s :: after) (hbefore : before.flatMap Section.forcing = [])
    (hafter : after.flatMap Section.forcing = []) :
    d.reportedTags.map TagUse.tag = (ofSection s).reportedTags.map TagUse.tag ++
      (after.flatMap Section.testTags).filter fun t => (ofSection s).forcedTags.contains t.value := by
  have hnone {ss : List Section} (h : ss.flatMap Section.forcing = []) :
      statementsAmong .forceTags ((ss.flatMap Section.placed).map Prod.fst) = [] := by
    rw [map_placed, statementsAmong_visited, h]
  have halone : TagUse.after ([] ++ (before.flatMap Section.placed).map Prod.fst) s.placed =
      TagUse.after [] s.placed := TagUse.after_congr (hnone hbefore) _
  have hforced : forcedAmong ([] ++ (before.flatMap Section.placed).map Prod.fst ++
      s.placed.map Prod.fst) = (ofSection s).forcedTags := by
    rw [forcedTags_eq]
    apply forcedAmong_congr
    rw [statementsAmong_append, List.nil_append, hnone hbefore, List.nil_append, s.map_placed]
    exact congrArg _ (List.append_nil _).symm
  have hfirst : ((TagUse.after [] (before.flatMap Section.placed)).filter fun u =>
      u.inTest && u.isReported).map TagUse.tag = [] := by
    rw [TagUse.map_tag_reported (hnone hbefore), List.filter_eq_nil_iff]
    exact fun t _ => Bool.false_ne_true
  rw [reportedTags, tagUses, hsections, List.flatMap_append, List.flatMap_cons, TagUse.after_append,
    TagUse.after_append, halone, List.filter_append, List.filter_append, List.map_append, List.map_append,
    hfirst, TagUse.map_tag_reported (hnone hafter), hforced, inTests_placed, List.nil_append, reportedTags,
    tagUses, ofSection, List.flatMap_singleton]

section

variable {d : Document} (hone : (d.statementsOf .forceTags).length ≤ 1)
include hone

theorem exists_split_of_forcing {s : Section} (hs : s ∈ d.sections) (hforcing : s.forcing ≠ []) :
    ∃ before after, d.sections = before ++ s :: after ∧ before.flatMap Section.forcing = [] ∧
      after.flatMap Section.forcing = [] := by
  obtain ⟨before, after, hsections⟩ := List.append_of_mem hs
  have hpos := List.length_pos_iff.mpr hforcing
  rw [statementsOf_eq, visited, statementsAmong_visited, hsections, List.flatMap_append,
    List.flatMap_cons, List.length_append, List.length_append] at hone
  refine ⟨before, after, hsections, ?_, ?_⟩
  · rw [← List.length_eq_zero_iff]
    omega
  · rw [← List.length_eq_zero_iff]
    omega

theorem forcedTags_ofSection {s : Section} (hs : s ∈ d.sections) (hforcing : s.forcing ≠ []) :
    (ofSection s).forcedTags = d.forcedTags := by
  obtain ⟨before, after, hsections, hbefore, hafter⟩ := exists_split_of_forcing hone hs hforcing
  rw [forcedTags_eq, forcedTags_eq]
  apply forcedAmong_congr
  rw [visited, visited, statementsAmong_visited, statementsAmong_visited, hsections, List.flatMap_append,
    hbefore, List.flatMap_cons, hafter, ofSection, List.flatMap_singleton, List.nil_append,
    List.append_nil]

/-- If the other sections have no forced tags, the section that forces tags is as good as alone. -/
theorem map_tag_of_forcesNoneElsewhere (h : d.ForcesNoneElsewhere) {s : Section} (hs : s ∈ d.sections)
    (hforcing : s.forcing ≠ []) :
    d.reportedTags.map TagUse.tag = (ofSection s).reportedTags.map TagUse.tag := by
  obtain ⟨before, after, hsections, hbefore, hafter⟩ := exists_split_of_forcing hone hs hforcing
  have hbehind : ((after.flatMap Section.testTags).filter fun t =>
      (ofSection s).forcedTags.contains t.value) = [] := by
    rw [List.filter_eq_nil_iff, forcedTags_ofSection hone hs hforcing]
    intro t ht hcontains
    obtain ⟨other, hother, ht⟩ := List.mem_flatMap.mp ht
    have hmem : other ∈ d.sections := by
      rw [hsections]
      exact List.mem_append_right _ (List.mem_cons_of_mem _ hother)
    exact h other hmem (List.flatMap_eq_nil_iff.mp hafter other hother) t ht
      (List.contains_iff_mem.mp hcontains)
  rw [map_tag_reportedTags hsections hbefore hafter, hbehind, List.append_nil]

/-- If the order makes no difference, the section that forces tags may come first or last. The reports
differ by the forced tags of the other sections. -/
theorem forcesNoneElsewhere_of_forall_perm
    (h : ∀ other : Document, other.sections.Perm d.sections →
      (other.reportedTags.map TagUse.tag).Perm (d.reportedTags.map TagUse.tag))
    {s : Section} (hs : s ∈ d.sections) (hforcing : s.forcing ≠ []) : d.ForcesNoneElsewhere := by
  obtain ⟨before, after, hsections, hbefore, hafter⟩ := exists_split_of_forcing hone hs hforcing
  have hothers : (before ++ after).flatMap Section.forcing = [] := by
    rw [List.flatMap_append, hbefore, hafter, List.nil_append]
  have hfirst := h ⟨none, s :: (before ++ after)⟩ (hsections ▸ List.perm_middle.symm)
  have hlast := h ⟨none, (before ++ after) ++ [s]⟩
    (hsections ▸ (List.perm_append_singleton s _).trans List.perm_middle.symm)
  have hlength := (hfirst.trans hlast.symm).length_eq
  rw [map_tag_reportedTags (d := ⟨none, s :: (before ++ after)⟩) (s := s) rfl List.flatMap_nil hothers,
    map_tag_reportedTags (d := ⟨none, before ++ after ++ [s]⟩) (s := s) rfl hothers List.flatMap_nil,
    List.length_append, List.length_append, List.flatMap_nil, List.filter_nil, List.length_nil,
    Nat.add_left_cancel_iff, List.length_eq_zero_iff, List.filter_eq_nil_iff,
    forcedTags_ofSection hone hs hforcing] at hlength
  intro other hmem hnone t ht hforced
  have hother : other ∈ before ++ after := by
    rw [hsections, List.mem_append, List.mem_cons] at hmem
    rcases hmem with hmem | rfl | hmem
    · exact List.mem_append_left _ hmem
    · exact absurd hnone hforcing
    · exact List.mem_append_right _ hmem
  exact hlength t (List.mem_flatMap.mpr ⟨other, hother, ht⟩) (List.contains_iff_mem.mpr hforced)

/-- The order of the sections makes no difference exactly if no test case in another section has a tag that
is forced. -/
theorem forall_reportedTags_perm_iff :
    (∀ other : Document, other.sections.Perm d.sections →
        (other.reportedTags.map TagUse.tag).Perm (d.reportedTags.map TagUse.tag)) ↔
      d.ForcesNoneElsewhere := by
  by_cases hany : ∃ s ∈ d.sections, s.forcing ≠ []
  · obtain ⟨s, hs, hforcing⟩ := hany
    refine ⟨fun h => forcesNoneElsewhere_of_forall_perm hone h hs hforcing, fun h other hperm => ?_⟩
    obtain ⟨hforced, hone'⟩ := forcedTags_perm hone hperm
    have h' : other.ForcesNoneElsewhere := by
      intro s' hs'
      rw [hforced]
      exact h s' (hperm.mem_iff.mp hs')
    rw [map_tag_of_forcesNoneElsewhere hone h hs hforcing,
      map_tag_of_forcesNoneElsewhere hone' h' (hperm.mem_iff.mpr hs) hforcing]
  · -- Nothing is forced, and nothing is reported.
    have hnone : d.forcedTags = [] := by
      have hforcing : d.sections.flatMap Section.forcing = [] := by
        rw [List.flatMap_eq_nil_iff]
        exact fun s hs => not_not.mp fun hne => hany ⟨s, hs, hne⟩
      rw [forcedTags_eq, forcedAmong, visited, statementsAmong_visited, hforcing]
      rfl
    refine iff_of_true (fun other hperm => ?_) fun s _ _ t _ => by rw [hnone]; exact List.not_mem_nil
    have hnil {e : Document} (he : (e.statementsOf .forceTags).length ≤ 1) (hforced : e.forcedTags = []) :
        e.reportedTags = [] := by
      rw [reportedTags_eq he, dueTags, hforced]
      simp
    obtain ⟨hforced, hone'⟩ := forcedTags_perm hone hperm
    rw [hnil hone hnone, hnil hone' (hforced.trans hnone)]

end

end Document

/-! ## What is reported -/

namespace Check.Tag

def repeatFinding (t : Token) : Finding := found .tagAlreadySetInForceTags [] t.line (t.column + 1)

def repeatFindings (uses : List TagUse) : List Finding :=
  (uses.filter TagUse.isReported).map fun u => repeatFinding u.tag

theorem repeatFindings_append (uses more : List TagUse) :
    repeatFindings (uses ++ more) = repeatFindings uses ++ repeatFindings more := by
  rw [repeatFindings, List.filter_append, List.map_append]
  rfl

theorem among_inTags (scope : Scope) (s : Statement) :
    RuleKey.tagAlreadySetInForceTags.among (inTags scope s) =
      ((tagsOf s).filter fun t => scope.forced.contains t.value).map repeatFinding := by
  rw [inTags, RuleKey.among_append, RuleKey.among_eq_nil, List.nil_append, RuleKey.among,
    List.filter_eq_self.mpr]
  · rfl
  · intro f hf
    obtain ⟨t, -, rfl⟩ := List.mem_map.mp hf
    rfl
  · intro f hf
    rw [rule_of_mem_ite hf]
    exact show RuleKey.emptyTags ≠ _ by decide

theorem among_visit {scope : Scope} {before : List Node} (h : scope.Holds before) (p : Node × Bool) :
    RuleKey.tagAlreadySetInForceTags.among (scope.visit p.1).1 =
      repeatFindings (p.1.tags.map (⟨·, p.2, forcedAmong before⟩)) := by
  have hforced : scope.forced = forcedAmong before := h.forced
  rw [repeatFindings, List.filter_map, List.map_map, ← hforced]
  obtain ⟨n, inTest⟩ := p
  cases n with
  | block kind header body orelse close errors => cases kind <;> rfl
  | leaf s =>
    by_cases hkind : s.kind = .tags
    · have htags : Node.tags (.leaf s) = tagsOf s := by
        simp [Node.tags, statementsAmong, Node.statement?, hkind]
      simp only [Scope.visit, hkind, htags]
      exact among_inTags scope s
    · have htags : Node.tags (.leaf s) = [] := by
        simp [Node.tags, statementsAmong, Node.statement?, hkind]
      have hvisit : (scope.visit (.leaf s)).1 = [] := by
        simp only [Scope.visit]
        split
        · rfl
        · rfl
        · next heq => exact absurd heq hkind
        · rfl
      rw [hvisit, htags]
      rfl

theorem among_visitAll {scope : Scope} {before : List Node} (h : scope.Holds before)
    (ps : List (Node × Bool)) :
    RuleKey.tagAlreadySetInForceTags.among (scope.visitAll (ps.map Prod.fst)).1 =
      repeatFindings (TagUse.after before ps) := by
  induction ps generalizing scope before with
  | nil => rfl
  | cons p ps ih =>
    rw [List.map_cons, Scope.visitAll, RuleKey.among_append, among_visit h, ih (h.visit p.1),
      TagUse.after, repeatFindings_append]

private theorem among_visitSection {scope : Scope} {before : List Node} (h : scope.Holds before) (s : Section) :
    RuleKey.tagAlreadySetInForceTags.among (scope.visitSection s).1 =
      repeatFindings (TagUse.after before s.placed) := by
  rw [Scope.visitSection, ← s.map_placed]
  split
  · exact among_visitAll (h.within true) s.placed
  · exact among_visitAll h s.placed

theorem among_visitSections {scope : Scope} {before : List Node} (h : scope.Holds before)
    (ss : List Section) :
    RuleKey.tagAlreadySetInForceTags.among (scope.visitSections ss).1 =
      repeatFindings (TagUse.after before (ss.flatMap Section.placed)) := by
  induction ss generalizing scope before with
  | nil => rfl
  | cons s ss ih =>
    have hnext : (scope.visitSection s).2.Holds (before ++ s.placed.map Prod.fst) := by
      have hone := h.visitSections [s]
      rw [List.flatMap_singleton, ← s.map_placed] at hone
      exact hone
    rw [Scope.visitSections, RuleKey.among_append, among_visitSection h, ih hnext, List.flatMap_cons,
      TagUse.after_append, repeatFindings_append]

theorem among_checkScopes (arrange : List String → List String) (t : Trace) (d : Document) :
    RuleKey.tagAlreadySetInForceTags.among (checkScopes arrange t d).1 = repeatFindings d.tagUses := by
  have hstart := Scope.holds_start t
  obtain ⟨rest, hshared, hnot, hrest⟩ := summary_eq arrange (d := d) (hstart.visitSections d.sections)
  have hdefaults : RuleKey.tagAlreadySetInForceTags.among rest = [] := by
    refine RuleKey.among_eq_nil fun f hf => ?_
    rw [(hrest f hf).1]
    decide
  have hend : RuleKey.tagAlreadySetInForceTags.among
      (((Scope.start t).visitSections d.sections).2.summary arrange d) = [] := by
    by_cases hseems : d.SeemsToShareTags
    · rw [hshared hseems, RuleKey.among_append, hdefaults]
      rfl
    · rw [hnot hseems, hdefaults]
  rw [checkScopes, RuleKey.among_append, hend, List.append_nil, among_visitSections hstart]
  rfl

private theorem entry_repeatFinding (u : TagUse) : (repeatFinding u.tag).entry = u.entry := by
  have htext : (repeatFinding u.tag).message = u.entry.2.1 :=
    Finding.message_of_plain (f := repeatFinding u.tag) rfl (by decide) rfl
  rw [Finding.entry, htext]
  rfl

end Check.Tag

namespace Options

open Check.Tag

theorem scan_repeatedTags (o : Options) {host : Host} {notes : List String} {s : Setup}
    (h : o.setup host = (notes, .ok s)) (hon : s.linter.registry.enables "0606" = true)
    (memory : Memory) (subject : Subject) :
    ∃ issues : List Issue, (s.linter.withMemory memory).scan .tagScopes subject = .ok issues ∧
      (Issue.among [.tagAlreadySetInForceTags] issues).map Issue.entry =
        (subject.document.tagUses.filter TagUse.isReported).map TagUse.entry := by
  have hkey : RuleKey.tagAlreadySetInForceTags ∈ Checker.tagScopes.keys := by decide
  obtain ⟨hfills, -⟩ := checkScopes_spec host memory.tags subject.document
  obtain ⟨issues, hissues, hentries⟩ := o.scan_only h memory hkey hon rfl hfills
  have hreported : (RuleKey.tagAlreadySetInForceTags.among
      (checkScopes host.arrange memory.tags subject.document).1).map Finding.entry =
        (subject.document.tagUses.filter TagUse.isReported).map TagUse.entry := by
    rw [among_checkScopes, repeatFindings, List.map_map]
    exact List.map_congr_left fun u _ => entry_repeatFinding u
  exact ⟨issues, hissues, hentries.trans hreported⟩

/-- Under tag-already-set-in-force-tags (0606) the tags are reported that Force Tags has forced by then, in
order and each once. Let there be at most one Force Tags. The tags of test cases among those reported are the
forced ones exactly if these stand behind Force Tags. Which ones are forced does not go by the order of the
sections: where all of them are reported, they are so in another order exactly if they stand behind Force Tags
there too. No order makes a difference exactly if the sections without Force Tags have test cases without
forced tags. -/
theorem forced_tags_reported_iff (o : Options) {host : Host} {notes : List String} {s : Setup}
    (h : o.setup host = (notes, .ok s)) (hon : s.linter.registry.enables "0606" = true)
    (memory : Memory) (subject : Subject)
    (hone : (subject.document.statementsOf .forceTags).length ≤ 1) :
    ∃ issues : List Issue, (s.linter.withMemory memory).scan .tagScopes subject = .ok issues ∧
      (Issue.among [.tagAlreadySetInForceTags] issues).map Issue.entry =
        (subject.document.tagUses.filter TagUse.isReported).map TagUse.entry ∧
      (subject.document.reportedTags = subject.document.dueTags ↔ subject.document.ForcesFirst) ∧
      (∀ other : Document, other.sections.Perm subject.document.sections →
        (other.dueTags.map TagUse.tag).Perm (subject.document.dueTags.map TagUse.tag) ∧
        (subject.document.ForcesFirst →
          ((other.reportedTags.map TagUse.tag).Perm (subject.document.reportedTags.map TagUse.tag) ↔
            other.ForcesFirst))) ∧
      ((∀ other : Document, other.sections.Perm subject.document.sections →
          (other.reportedTags.map TagUse.tag).Perm (subject.document.reportedTags.map TagUse.tag)) ↔
        subject.document.ForcesNoneElsewhere) := by
  obtain ⟨issues, hissues, hentries⟩ := o.scan_repeatedTags h hon memory subject
  refine ⟨issues, hissues, hentries, Document.reportedTags_eq_dueTags_iff hone, fun other hperm => ?_,
    Document.forall_reportedTags_perm_iff hone⟩
  exact ⟨Document.dueTags_perm hone hperm, Document.reportedTags_perm_iff hone hperm⟩

end Options

def Section.forcingTags (line : Int) (tags : List String) : Section :=
  ⟨.settings, none, [.leaf ⟨.forceTags,
    ⟨.forceTags, "Force Tags", line, 0⟩ :: tags.map (⟨.argument, ·, line, 14⟩), []⟩]⟩

/-- Test cases before and behind Force Tags, the latter with a forced tag, and a keyword with one. -/
def Subject.forcingBetween : Subject :=
  ⟨"a.robot", .text [], ⟨none, [⟨.testCases, none, [.taggedTest 2 ["c"]]⟩, .forcingTags 6 ["a", "b"],
    ⟨.testCases, none, [.taggedTest 8 ["c", "b"]]⟩, ⟨.keywords, none, [.taggedKeyword 12 ["a"]]⟩]⟩⟩

def Subject.forcingLast : Subject :=
  ⟨"a.robot", .text [], ⟨none, [⟨.testCases, none, [.taggedTest 2 ["a"]]⟩, .forcingTags 6 ["a"]]⟩⟩

namespace Options

theorem forced_tags_reported_iff_forcingBetween :
    ∃ (s : Setup) (issues : List Issue), standard.setup .plain = ([], .ok s) ∧
      s.linter.registry.enables "0606" = true ∧
      (Subject.forcingBetween.document.statementsOf .forceTags).length ≤ 1 ∧
      s.linter.scan .tagScopes .forcingBetween = .ok issues ∧
      (Issue.among [.tagAlreadySetInForceTags] issues).map (fun i => i.entry.2.2) = [(9, 15), (13, 15)] ∧
      Subject.forcingBetween.document.reportedTags = Subject.forcingBetween.document.dueTags ∧
      Subject.forcingBetween.document.dueTags.map (·.tag.value) = ["b"] := by
  have hsetup := setup_standard .plain
  have hon := enables_standard hsetup .tagAlreadySetInForceTags
  have hone : (Subject.forcingBetween.document.statementsOf .forceTags).length ≤ 1 := by decide +kernel
  obtain ⟨issues, hissues, hentries, hall, -⟩ := forced_tags_reported_iff standard hsetup hon
    .blank .forcingBetween hone
  have hplaces := congrArg (List.map fun e => e.2.2) hentries
  rw [List.map_map, List.map_map] at hplaces
  refine ⟨_, issues, hsetup, hon, hone, hissues, hplaces.trans ?_, hall.mpr (by decide +kernel),
    by decide +kernel⟩
  decide +kernel

/-- A tag that is forced in a later section is not reported. -/
theorem tag_before_force_tags_not_reported :
    ∃ (s : Setup) (issues : List Issue), standard.setup .plain = ([], .ok s) ∧
      s.linter.registry.enables "0606" = true ∧
      (Subject.forcingLast.document.statementsOf .forceTags).length ≤ 1 ∧
      Subject.forcingLast.document.dueTags.map TagUse.entry =
        [("0606", "This tag is already set by Force Tags in suite settings", 3, 15)] ∧
      s.linter.scan .tagScopes .forcingLast = .ok issues ∧
      Issue.among [.tagAlreadySetInForceTags] issues = [] := by
  have hsetup := setup_standard .plain
  have hon := enables_standard hsetup .tagAlreadySetInForceTags
  obtain ⟨issues, hissues, hentries⟩ := standard.scan_repeatedTags hsetup hon .blank .forcingLast
  have hnone : Subject.forcingLast.document.tagUses.filter TagUse.isReported = [] :=
    List.filter_eq_nil_iff.mpr (by decide +kernel)
  rw [hnone] at hentries
  exact ⟨_, issues, hsetup, hon, by decide +kernel, by decide +kernel, hissues,
    List.map_eq_nil_iff.mp hentries⟩

end Options

end SuiteLint
