import SuiteLint.Proofs.RenamedRules
import SuiteLint.Proofs.TextParts

/-!
# The review of the names of a selection

An old name is renamed in both lists while one of them is walked through, and the review breaks off if that
makes the list shorter, that is, if the new name stands there too. So it can fail although all names are in
order. Which names are met after the first renaming is up to the walk, and a name that is not met is neither
renamed nor refused.
-/

namespace SuiteLint.Selection

variable {known : List String}

def BesideNewName (names : List String) (old : String) : Prop :=
  ∃ new ∈ names, renamedRules.lookup old = some new

theorem not_besideNewName {name : String} (h : renamedRules.lookup name = none) (names : List String) :
    ¬ BesideNewName names name := by
  rintro ⟨new, -, hnew⟩
  rw [h] at hnew
  cases hnew

def Meets (known : List String) (bad : String → Prop) (names : List String) : Prop :=
  ∃ before name after, names = before ++ name :: after ∧ bad name ∧ ∀ other ∈ before, Accepted known other

/-! ## Going through names -/

section Meets

variable {bad : String → Prop}

theorem Meets.exists_mem {names : List String} (h : Meets known bad names) : ∃ name ∈ names, bad name := by
  obtain ⟨before, name, after, rfl, hbad, -⟩ := h
  exact ⟨name, List.mem_append_right before List.mem_cons_self, hbad⟩

private theorem not_meets_nil : ¬ Meets known bad [] := by
  intro h
  obtain ⟨name, hname, -⟩ := h.exists_mem
  cases hname

@[simp] theorem meets_cons (name : String) (names : List String) :
    Meets known bad (name :: names) ↔ bad name ∨ (Accepted known name ∧ Meets known bad names) := by
  constructor
  · rintro ⟨before, later, after, hnames, hbad, haccepted⟩
    cases before with
    | nil =>
      obtain ⟨rfl, rfl⟩ := List.cons.inj hnames
      exact Or.inl hbad
    | cons first before =>
      obtain ⟨rfl, rfl⟩ := List.cons.inj hnames
      rw [List.forall_mem_cons] at haccepted
      exact Or.inr ⟨haccepted.1, before, later, after, rfl, hbad, haccepted.2⟩
  · rintro (hbad | ⟨hfirst, before, later, after, rfl, hbad, haccepted⟩)
    · exact ⟨[], name, names, rfl, hbad, by simp⟩
    · exact ⟨name :: before, later, after, rfl, hbad, List.forall_mem_cons.mpr ⟨hfirst, haccepted⟩⟩

end Meets

/-! ## What a review leaves behind -/

def renameOlds (others names : List String) : List String := others.foldl renameOld names

def afterReview (s : Selection) (others : List String) : Selection :=
  { s with included := renameOlds others s.included, excluded := renameOlds others s.excluded }

private theorem new_injective {old other new : String} (h : renamedRules.lookup old = some new)
    (hother : renamedRules.lookup other = some new) : old = other := by
  have hentries : ∀ entry ∈ renamedRules, ∀ entry' ∈ renamedRules, entry.2 = entry'.2 →
      entry.1 = entry'.1 := by decide
  exact hentries _ (Lookup.mem_of_eq_some h) _ (Lookup.mem_of_eq_some hother) rfl

theorem lookup_new {old new : String} (h : renamedRules.lookup old = some new) :
    renamedRules.lookup new = none := by
  have hnew := lookup_newName old
  rwa [newName_of_lookup_some h] at hnew

private theorem nodup_renameIn {names : List String} (h : names.Nodup) (old new : String) :
    (renameIn old new names).Nodup := by
  unfold renameIn
  split
  · exact Text.nodup_insertText (h.filter _) new
  · exact h

theorem nodup_renameOlds {names : List String} (h : names.Nodup) (others : List String) :
    (renameOlds others names).Nodup := by
  induction others generalizing names with
  | nil => exact h
  | cons other others ih =>
    refine ih ?_
    unfold renameOld
    split
    · exact nodup_renameIn h _ _
    · exact h

@[simp] theorem mem_renameOlds (others names : List String) (name : String) :
    name ∈ renameOlds others names ↔
      (name ∈ names ∧ ¬ (name ∈ others ∧ (renamedRules.lookup name).isSome = true)) ∨
        ∃ old ∈ others, old ∈ names ∧ renamedRules.lookup old = some name := by
  induction others generalizing names with
  | nil => simp [renameOlds]
  | cons other others ih =>
    have hstep : renameOlds (other :: others) names = renameOlds others (renameOld names other) := rfl
    rw [hstep, ih, renameOld]
    cases hother : renamedRules.lookup other with
    | none => grind
    | some new =>
      have hnew := lookup_new hother
      simp only [mem_renameIn_iff]
      grind

/-- Names among which all old ones are met are those that are renewed. -/
theorem mem_renameOlds_of_met {others names : List String}
    (h : ∀ name ∈ names, (renamedRules.lookup name).isSome = true → name ∈ others) (name : String) :
    name ∈ renameOlds others names ↔ name ∈ names.map newName := by
  rw [mem_renameOlds, List.mem_map]
  constructor
  · rintro (⟨hname, hnot⟩ | ⟨old, -, hold, hnew⟩)
    · have hnone : renamedRules.lookup name = none :=
        Option.not_isSome_iff_eq_none.mp fun hold => hnot ⟨h name hname hold, hold⟩
      exact ⟨name, hname, newName_of_lookup_none hnone⟩
    · exact ⟨old, hold, newName_of_lookup_some hnew⟩
  · rintro ⟨old, hold, rfl⟩
    cases hlookup : renamedRules.lookup old with
    | none =>
      rw [newName_of_lookup_none hlookup]
      exact Or.inl ⟨hold, by simp [hlookup]⟩
    | some new =>
      rw [newName_of_lookup_some hlookup]
      exact Or.inr ⟨old, h old hold (by simp [hlookup]), hold, hlookup⟩

private theorem afterReview_append (s : Selection) (others more : List String) :
    s.afterReview (others ++ more) = (s.afterReview others).afterReview more := by
  simp only [afterReview, renameOlds, List.foldl_append]

/-! ## The outcome of a review -/

private theorem afterReview_cons_of_none {name : String} (h : renamedRules.lookup name = none) (s : Selection)
    (names : List String) : s.afterReview (name :: names) = s.afterReview names := by
  simp only [afterReview, renameOlds, List.foldl_cons, renameOld, h]

private theorem afterReview_cons_of_some {name new : String} (h : renamedRules.lookup name = some new)
    (s : Selection) (names : List String) :
    s.afterReview (name :: names) = (s.rename name new).afterReview names := by
  simp only [afterReview, renameOlds, List.foldl_cons, renameOld, h, rename]

/-- What a review of names comes to: it breaks off at an old name beside its new one, fails at an unknown
name, or renames the old names. -/
def ReviewsTo (known whole names : List String) (s : Selection) (outcome : Except LintError Selection) :
    Prop :=
  (Meets known (BesideNewName whole) names ∧ outcome = .error .namesChanged) ∨
    (¬ Meets known (BesideNewName whole) names ∧ (∀ name ∈ names, Accepted known name) ∧
      outcome = .ok (s.afterReview names)) ∨
    (¬ Meets known (BesideNewName whole) names ∧ ¬ (∀ name ∈ names, Accepted known name) ∧
      ∃ name hint, outcome = .error (.unknownRule name hint))

private theorem ReviewsTo.cons {whole names : List String} {name : String} {s s' : Selection}
    {outcome : Except LintError Selection} (hbad : ¬ BesideNewName whole name)
    (haccepted : Accepted known name) (hafter : s.afterReview (name :: names) = s'.afterReview names)
    (h : ReviewsTo known whole names s' outcome) : ReviewsTo known whole (name :: names) s outcome := by
  rw [ReviewsTo, meets_cons, List.forall_mem_cons, hafter]
  simpa [hbad, haccepted, ReviewsTo] using h

/-- An old name that is met is still in the list, so the list has its new name only if it had it before. -/
theorem besideNewName_iff {whole before : List String} {name new : String}
    (hname : name ∈ renameOlds before whole) (hold : renamedRules.lookup name = some new) :
    BesideNewName whole name ↔
      ((renameOlds before whole).contains name && (renameOlds before whole).contains new) = true := by
  have hahead : name ∉ before := by
    rcases (mem_renameOlds before whole name).mp hname with ⟨-, hnot⟩ | ⟨old, -, -, hnew⟩
    · exact fun hbefore => hnot ⟨hbefore, by simp [hold]⟩
    · rw [lookup_new hnew] at hold
      cases hold
  have hnew : new ∈ renameOlds before whole ↔ new ∈ whole := by
    rw [mem_renameOlds]
    constructor
    · rintro (hmem | ⟨other, hother, -, hlookup⟩)
      · exact hmem.1
      · exact absurd (new_injective hlookup hold ▸ hother) hahead
    · intro hmem
      exact Or.inl ⟨hmem, by simp [lookup_new hold]⟩
  rw [Bool.and_eq_true, List.contains_iff_mem, List.contains_iff_mem, and_iff_right hname, hnew]
  constructor
  · rintro ⟨other, hother, hlookup⟩
    rwa [Option.some.inj (hold.symm.trans hlookup)]
  · intro hmem
    exact ⟨new, hmem, hold⟩

-- The names met so far tell what has become of the list that is walked through.
theorem reviewsTo_review {listed : Selection → List String}
    (hlisted : ∀ (s : Selection) old new, listed (s.rename old new) = renameIn old new (listed s))
    (before : List String) {whole names : List String} {s : Selection}
    (hs : listed s = renameOlds before whole)
    (hmet : IsMet (listed s) names) :
    ReviewsTo known whole names s (review known listed s names).2 := by
  induction names generalizing before s with
  | nil => exact Or.inr (Or.inl ⟨not_meets_nil, by simp, rfl⟩)
  | cons name names ih =>
    obtain ⟨hname, hlater⟩ := hmet
    rw [review]
    cases hold : renamedRules.lookup name with
    | none =>
      rw [renameOld, hold] at hlater
      have hbad := not_besideNewName hold whole
      simp only
      split
      · next hknown =>
        exact (ih before hs hlater).cons hbad (Or.inl (List.contains_iff_mem.mp hknown))
          (afterReview_cons_of_none hold s names)
      · next hunknown =>
        have hrefused : ¬ Accepted known name := by
          rintro (hknown | hsome)
          · exact hunknown (List.contains_iff_mem.mpr hknown)
          · simp [hold] at hsome
        rw [ReviewsTo, meets_cons, List.forall_mem_cons]
        exact Or.inr (Or.inr ⟨by simp [hbad, hrefused], by simp [hrefused], name, _, rfl⟩)
    | some new =>
      have hbeside := besideNewName_iff (hs ▸ hname) hold
      rw [← hs] at hbeside
      rw [renameOld, hold] at hlater
      have hrenamed : listed (s.rename name new) = renameOlds (before ++ [name]) whole := by
        rw [hlisted, hs, renameOlds, renameOlds, List.foldl_append, List.foldl_cons, List.foldl_nil,
          renameOld, hold]
      simp only
      split
      · next hboth => exact Or.inl ⟨(meets_cons name names).mpr (Or.inl (hbeside.mpr hboth)), rfl⟩
      · next hboth =>
        have hrest := ih _ hrenamed (by rwa [hlisted])
        exact hrest.cons (mt hbeside.mp hboth) (Or.inr (by simp [hold]))
          (afterReview_cons_of_some hold s names)

/-- The included names that are met. -/
def firstMet (s : Selection) (walk : Walk) : List String := walk.visits s.included

/-- The excluded names that are met, after those that were met before are renamed among them. -/
def laterMet (s : Selection) (walk : Walk) : List String :=
  walk.visits (renameOlds (s.firstMet walk) s.excluded)

theorem outcome_validate (s : Selection) (walk : Walk) (known : List String) :
    (s.validate walk known).2 = (review known (·.included) s (s.firstMet walk)).2.bind fun s' =>
      (review known (·.excluded) s' (walk.visits s'.excluded)).2 := by
  unfold validate firstMet
  split
  · next h => rw [h]; rfl
  · next h => rw [h]; rfl

def BreaksOff (s : Selection) (walk : Walk) (known : List String) : Prop :=
  Meets known (BesideNewName s.included) (s.firstMet walk) ∨
    (∀ name ∈ s.firstMet walk, Accepted known name) ∧
      Meets known (BesideNewName (renameOlds (s.firstMet walk) s.excluded)) (s.laterMet walk)

private theorem not_breaksOff_iff (s : Selection) (walk : Walk) (known : List String) :
    ¬ s.BreaksOff walk known ↔
      ¬ Meets known (BesideNewName s.included) (s.firstMet walk) ∧
        ((∀ name ∈ s.firstMet walk, Accepted known name) →
          ¬ Meets known (BesideNewName (renameOlds (s.firstMet walk) s.excluded)) (s.laterMet walk)) := by
  rw [BreaksOff, not_or, not_and]

/-- What the review of both lists comes to: it breaks off, renames the old names that are met, or fails at
an unknown name. -/
theorem validate_cases (s : Selection) (walk : Walk) (known : List String) :
    (s.BreaksOff walk known ∧ (s.validate walk known).2 = .error .namesChanged) ∨
      (¬ s.BreaksOff walk known ∧ (∀ name ∈ s.firstMet walk ++ s.laterMet walk, Accepted known name) ∧
        (s.validate walk known).2 = .ok (s.afterReview (s.firstMet walk ++ s.laterMet walk))) ∨
      (¬ s.BreaksOff walk known ∧ ¬ (∀ name ∈ s.firstMet walk ++ s.laterMet walk, Accepted known name) ∧
        ∃ name hint, (s.validate walk known).2 = .error (.unknownRule name hint)) := by
  have hfirst : ReviewsTo known s.included (s.firstMet walk) s
      (review known (·.included) s (s.firstMet walk)).2 :=
    reviewsTo_review (fun _ _ _ => rfl) [] rfl (walk.isMet _)
  have hsecond : ReviewsTo known (renameOlds (s.firstMet walk) s.excluded) (s.laterMet walk)
      (s.afterReview (s.firstMet walk)) (review known (·.excluded) (s.afterReview (s.firstMet walk))
        (s.laterMet walk)).2 :=
    reviewsTo_review (fun _ _ _ => rfl) [] rfl (walk.isMet _)
  rw [outcome_validate, not_breaksOff_iff, List.forall_mem_append, afterReview_append]
  rcases hfirst with ⟨hmeets, hfirst⟩ | ⟨hmeets, haccepted, hfirst⟩ | ⟨hmeets, hrefused, name, hint, hfirst⟩
  · rw [hfirst]
    exact Or.inl ⟨Or.inl hmeets, rfl⟩
  · rw [hfirst]
    rcases hsecond with ⟨hmeets', hsecond⟩ | ⟨hmeets', haccepted', hsecond⟩ |
      ⟨hmeets', hrefused, name, hint, hsecond⟩
    · exact Or.inl ⟨Or.inr ⟨haccepted, hmeets'⟩, hsecond⟩
    · exact Or.inr (Or.inl ⟨⟨hmeets, fun _ => hmeets'⟩, ⟨haccepted, haccepted'⟩, hsecond⟩)
    · exact Or.inr (Or.inr ⟨⟨hmeets, fun _ => hmeets'⟩, fun h => hrefused h.2, name, hint, hsecond⟩)
  · rw [hfirst]
    exact Or.inr (Or.inr ⟨⟨hmeets, fun h => absurd h hrefused⟩, fun h => hrefused h.1, name, hint, rfl⟩)

/-! ## When the answer is right -/

/-- A selection with new names for all old ones, and otherwise the same. -/
structure IsRenewal (s s' : Selection) : Prop where
  included : ∀ name, name ∈ s'.included ↔ name ∈ s.included.map newName
  excluded : ∀ name, name ∈ s'.excluded ↔ name ∈ s.excluded.map newName
  included_nodup : s'.included.Nodup
  excluded_nodup : s'.excluded.Nodup
  current : s'.IsCurrent
  rest : s' = { s with included := s'.included, excluded := s'.excluded }

/-- The answer that is due: the renewed selection if all names are accepted, and an error on an unknown rule
otherwise. -/
def DueAnswer (known : List String) (s : Selection) : Except LintError Selection → Prop
  | .ok s' => s.AllAccepted known ∧ IsRenewal s s'
  | .error e => ¬ s.AllAccepted known ∧ ∃ name hint, e = .unknownRule name hint

theorem isRenewal_afterReview_iff {s : Selection} (hincluded : s.included.Nodup)
    (hexcluded : s.excluded.Nodup) (met : List String) :
    IsRenewal s (s.afterReview met) ↔ ∀ name ∈ s.entries,
      (renamedRules.lookup name).isSome = true → name ∈ met := by
  constructor
  · intro h name hname hold
    by_contra hmet
    have hkept {names : List String} (hnames : name ∈ names) : name ∈ renameOlds met names :=
      (mem_renameOlds met names name).mpr (Or.inl ⟨hnames, fun hboth => hmet hboth.1⟩)
    have hnone := h.current name (List.mem_append.mpr ((List.mem_append.mp hname).imp hkept hkept))
    simp [hnone] at hold
  · intro h
    have hin := mem_renameOlds_of_met fun name hname => h name (List.mem_append_left _ hname)
    have hex := mem_renameOlds_of_met fun name hname => h name (List.mem_append_right _ hname)
    refine ⟨hin, hex, nodup_renameOlds hincluded _, nodup_renameOlds hexcluded _, ?_, rfl⟩
    refine List.forall_mem_append.mpr ⟨fun name hname => ?_, fun name hname => ?_⟩
    · obtain ⟨old, -, rfl⟩ := List.mem_map.mp ((hin name).mp hname)
      exact lookup_newName old
    · obtain ⟨old, -, rfl⟩ := List.mem_map.mp ((hex name).mp hname)
      exact lookup_newName old

theorem not_dueAnswer_namesChanged (s : Selection) : ¬ DueAnswer known s (.error .namesChanged) := by
  rintro ⟨-, name, hint, heq⟩
  cases heq

private theorem dueAnswer_unknownRule_iff (s : Selection) (name : String) (hint : String) :
    DueAnswer known s (.error (.unknownRule name hint)) ↔ ¬ s.AllAccepted known :=
  ⟨fun h => h.1, fun h => ⟨h, name, hint, rfl⟩⟩

private theorem dueAnswer_of_isCurrent (walk : Walk) {s : Selection} (hincluded : s.included.Nodup)
    (hexcluded : s.excluded.Nodup) (h : s.IsCurrent) : DueAnswer known s (s.validate walk known).2 := by
  rcases validate_of_isCurrent walk known h with ⟨hknown, hvalid⟩ | ⟨name, hname, hunknown, hvalid⟩
  · have hrenewal := (isRenewal_afterReview_iff hincluded hexcluded []).mpr fun name hname hold => by
      simp [h name hname] at hold
    rw [hvalid]
    exact ⟨h.allAccepted_iff.mpr hknown, hrenewal⟩
  · rw [hvalid, dueAnswer_unknownRule_iff, h.allAccepted_iff]
    exact fun hall => hunknown (hall name hname)

/-- The review of the names in `--include` and `--exclude` gives the answer that is due, exactly if no old
name is met beside its new one, all names are known or old exactly if those that are met are, and if they are,
all old names are met. Without old names it always does. -/
theorem names_answered_iff (walk : Walk) (known : List String) (s : Selection)
    (hincluded : s.included.Nodup) (hexcluded : s.excluded.Nodup) :
    (DueAnswer known s (s.validate walk known).2 ↔
      ¬ Meets known (BesideNewName s.included) (s.firstMet walk) ∧
        ((∀ name ∈ s.firstMet walk, Accepted known name) →
          ¬ Meets known (BesideNewName (renameOlds (s.firstMet walk) s.excluded)) (s.laterMet walk)) ∧
        (s.AllAccepted known ↔ ∀ name ∈ s.firstMet walk ++ s.laterMet walk, Accepted known name) ∧
        (s.AllAccepted known → ∀ name ∈ s.entries,
          (renamedRules.lookup name).isSome = true → name ∈ s.firstMet walk ++ s.laterMet walk)) ∧
      (s.IsCurrent → DueAnswer known s (s.validate walk known).2) := by
  refine ⟨?_, dueAnswer_of_isCurrent walk hincluded hexcluded⟩
  rw [← and_assoc, ← not_breaksOff_iff]
  rcases validate_cases s walk known with
    ⟨hbreaks, hvalid⟩ | ⟨hbreaks, haccepted, hvalid⟩ | ⟨hbreaks, hrefused, name, hint, hvalid⟩
  · rw [hvalid]
    exact iff_of_false (not_dueAnswer_namesChanged s) fun h => h.1 hbreaks
  · rw [hvalid, DueAnswer, isRenewal_afterReview_iff hincluded hexcluded]
    constructor
    · intro h
      exact ⟨hbreaks, iff_of_true h.1 haccepted, fun _ => h.2⟩
    · intro h
      have hall := h.2.1.mpr haccepted
      exact ⟨hall, h.2.2 hall⟩
  · rw [hvalid, dueAnswer_unknownRule_iff]
    constructor
    · intro h
      exact ⟨hbreaks, iff_of_false h hrefused, fun hall => absurd hall h⟩
    · intro h hall
      exact hrefused (h.2.1.mp hall)

def naming (included excluded : List String) : Selection :=
  { everything with included := included, excluded := excluded }

/-- An old id is included and excluded, and its new id is excluded too: the old one is renamed in both lists
before the excluded names are walked through. -/
theorem names_answered_iff_bothLists :
    (naming ["0304"] ["0406", "0304"]).included.Nodup ∧ (naming ["0304"] ["0406", "0304"]).excluded.Nodup ∧
      DueAnswer ["0406"] (naming ["0304"] ["0406", "0304"])
        ((naming ["0304"] ["0406", "0304"]).validate Host.plain.walk ["0406"]).2 := by
  refine ⟨by decide, by decide, ?_⟩
  rw [(names_answered_iff _ _ _ (by decide) (by decide)).1]
  have hfirst : (naming ["0304"] ["0406", "0304"]).firstMet Host.plain.walk = ["0304"] := by decide
  have hlater : (naming ["0304"] ["0406", "0304"]).laterMet Host.plain.walk = ["0406"] := by decide
  have hnone : renamedRules.lookup "0406" = none := by decide
  have hold : Accepted ["0406"] "0304" := Or.inr (by decide)
  have hnew : Accepted ["0406"] "0406" := Or.inl (by decide)
  have hall : (naming ["0304"] ["0406", "0304"]).AllAccepted ["0406"] := by
    simp [AllAccepted, entries, naming, hold, hnew]
  rw [hfirst, hlater]
  refine ⟨fun h => ?_, fun _ h => ?_, iff_of_true hall (by simp [hold, hnew]), fun _ name hname _ => ?_⟩
  · obtain ⟨name, hname, new, hnew, hlookup⟩ := h.exists_mem
    obtain rfl := List.mem_singleton.mp hname
    obtain rfl := List.mem_singleton.mp hnew
    exact absurd hlookup (by decide)
  · obtain ⟨name, hname, hbad⟩ := h.exists_mem
    exact not_besideNewName (List.mem_singleton.mp hname ▸ hnone) _ hbad
  · simpa [entries, naming, or_comm] using hname

/-- Either the old id is met beside its new one, or only the new one is met. -/
theorem meets_old_beside_new (hknown : "0406" ∈ known) {visited : List String}
    (h : IsMet ["0304", "0406"] visited) :
    Meets known (BesideNewName ["0304", "0406"]) visited ∨ ∀ name ∈ visited, name = "0406" := by
  induction visited with
  | nil => exact Or.inr (by simp)
  | cons name later ih =>
    obtain ⟨hname, hlater⟩ := h
    rw [meets_cons, List.forall_mem_cons]
    rcases List.mem_cons.mp hname with rfl | hname
    · exact Or.inl (Or.inl ⟨"0406", by simp, by decide⟩)
    · obtain rfl := List.mem_singleton.mp hname
      exact (ih hlater).imp (fun h => Or.inr ⟨Or.inl hknown, h⟩) fun h => ⟨rfl, h⟩

/-- An old id beside its new one makes the review of known names break off, whatever the walk. -/
theorem old_id_beside_new_id_fails : renamedRules.lookup "0304" = some "0406" ∧ ∀ host : Host,
    (naming ["0304", "0406"] []).AllAccepted host.known ∧
      ((naming ["0304", "0406"] []).validate host.walk host.known).2 = .error .namesChanged ∧
      ¬ DueAnswer host.known (naming ["0304", "0406"] [])
        ((naming ["0304", "0406"] []).validate host.walk host.known).2 := by
  refine ⟨by decide, fun host => ?_⟩
  have hknown : "0406" ∈ host.known := host.mem_known.mpr (by decide +kernel)
  have haccepted : (naming ["0304", "0406"] []).AllAccepted host.known := by
    intro name hname
    rcases List.mem_cons.mp hname with rfl | hname
    · exact Or.inr (by decide)
    · exact Or.inl (List.mem_singleton.mp hname ▸ hknown)
  have hbreaks : (naming ["0304", "0406"] []).BreaksOff host.walk host.known := by
    rcases meets_old_beside_new hknown (host.walk.isMet ["0304", "0406"]) with hmeets | hnew
    · exact Or.inl hmeets
    · have hcurrent : ∀ name ∈ host.walk.visits ["0304", "0406"], renamedRules.lookup name = none :=
        fun name hname => hnew name hname ▸ (by decide)
      exact absurd (hnew _ (host.walk.complete hcurrent "0304" List.mem_cons_self)) (by decide)
  have houtcome : ((naming ["0304", "0406"] []).validate host.walk host.known).2 =
      .error .namesChanged := by
    rcases validate_cases (naming ["0304", "0406"] []) host.walk host.known with h | h | h
    · exact h.2
    · exact absurd hbreaks h.1
    · exact absurd hbreaks h.1
  rw [houtcome]
  exact ⟨haccepted, rfl, not_dueAnswer_namesChanged _⟩

end SuiteLint.Selection
