import SuiteLint.Proofs.TextParts
import SuiteLint.Proofs.ThresholdEffect

/-!
# Rules that are selected by an old name

New names are put for old ones when a selection is reviewed, but by then the rules are already on or off.
So an old name means no rule at all, and a selection acts as its renewed form exactly if no rule depends on
one.
-/

namespace SuiteLint

namespace Selection

def newName (name : String) : String := (renamedRules.lookup name).getD name

def renewed (s : Selection) : Selection :=
  { s with included := s.included.map newName, excluded := s.excluded.map newName }

/-! ## Old and new names -/

private theorem old_unknown : ∀ entry ∈ renamedRules, Checker.owner? entry.1 = none := by
  decide +kernel

private theorem new_known : ∀ entry ∈ renamedRules, entry.2 ∈ Checker.directory.map (·.1) := by
  decide +kernel

private theorem new_not_old : ∀ entry ∈ renamedRules, renamedRules.lookup entry.2 = none := by
  decide

theorem lookup_of_isCalled {key : RuleKey} {name : String} (h : key.IsCalled name) :
    renamedRules.lookup name = none := by
  cases hold : renamedRules.lookup name with
  | none => rfl
  | some new =>
    obtain ⟨c, howner⟩ := Checker.owner?_eq_of_isCalled h
    have hnone := old_unknown _ (Lookup.mem_of_eq_some hold)
    simp [howner] at hnone

theorem newName_of_lookup_none {name : String} (h : renamedRules.lookup name = none) :
    newName name = name := by simp [newName, h]

theorem newName_of_lookup_some {old new : String} (h : renamedRules.lookup old = some new) :
    newName old = new := by simp [newName, h]

theorem lookup_newName (name : String) : renamedRules.lookup (newName name) = none := by
  cases h : renamedRules.lookup name with
  | none => rw [newName_of_lookup_none h, h]
  | some new =>
    rw [newName_of_lookup_some h]
    exact new_not_old _ (Lookup.mem_of_eq_some h)

end Selection

def RuleKey.HasOldNameIn (key : RuleKey) (names : List String) : Prop :=
  ∃ old ∈ names, ∃ new, Selection.renamedRules.lookup old = some new ∧ key.IsCalled new

namespace Selection

theorem isNamed_iff (key : RuleKey) (names : List String) (globs : List Text.Glob) :
    isNamed key.rule names globs = true ↔
      (∃ name ∈ names, key.IsCalled name) ∨ globs.any key.rule.matchesGlob = true := by
  simp only [isNamed, RuleKey.rule, RuleKey.IsCalled, Bool.or_eq_true, List.contains_iff_mem]
  constructor
  · rintro ((hid | hname) | hglob)
    · exact Or.inl ⟨_, hid, Or.inr rfl⟩
    · exact Or.inl ⟨_, hname, Or.inl rfl⟩
    · exact Or.inr hglob
  · rintro (⟨_, hmem, rfl | rfl⟩ | hglob)
    · exact Or.inl (Or.inr hmem)
    · exact Or.inl (Or.inl hmem)
    · exact Or.inr hglob

/-- New names for old ones add the rules that have an old name among the names. -/
theorem isNamed_newName (key : RuleKey) (names : List String) (globs : List Text.Glob) :
    isNamed key.rule (names.map newName) globs = true ↔
      isNamed key.rule names globs = true ∨ key.HasOldNameIn names := by
  rw [isNamed_iff, isNamed_iff]
  constructor
  · rintro (⟨_, hmem, hcalled⟩ | hglob)
    · obtain ⟨name, hname, rfl⟩ := List.mem_map.mp hmem
      cases h : renamedRules.lookup name with
      | none =>
        rw [newName_of_lookup_none h] at hcalled
        exact Or.inl (Or.inl ⟨name, hname, hcalled⟩)
      | some new =>
        rw [newName_of_lookup_some h] at hcalled
        exact Or.inr ⟨name, hname, new, h, hcalled⟩
    · exact Or.inl (Or.inr hglob)
  · rintro ((⟨name, hname, hcalled⟩ | hglob) | ⟨old, hold, new, h, hcalled⟩)
    · refine Or.inl ⟨name, List.mem_map.mpr ⟨name, hname, ?_⟩, hcalled⟩
      exact newName_of_lookup_none (lookup_of_isCalled hcalled)
    · exact Or.inr hglob
    · exact Or.inl ⟨new, List.mem_map.mpr ⟨old, hold, newName_of_lookup_some h⟩, hcalled⟩

/-! ## The review of names -/

/-- Names that are known or old. -/
def Accepted (known : List String) (name : String) : Prop :=
  name ∈ known ∨ (renamedRules.lookup name).isSome = true

def entries (s : Selection) : List String := s.included ++ s.excluded

def AllAccepted (s : Selection) (known : List String) : Prop := ∀ name ∈ s.entries, Accepted known name

/-- Whether a selection has no old names. -/
def IsCurrent (s : Selection) : Prop := ∀ name ∈ s.entries, renamedRules.lookup name = none

variable {known : List String} {listed : Selection → List String} {notes : List String} {walk : Walk}

theorem mem_of_isMet {names visited : List String} (h : ∀ name ∈ names, renamedRules.lookup name = none)
    (hmet : IsMet names visited) : ∀ name ∈ visited, name ∈ names := by
  induction visited with
  | nil => simp
  | cons name later ih =>
    obtain ⟨hname, hlater⟩ := hmet
    rw [renameOld, h name hname] at hlater
    exact List.forall_mem_cons.mpr ⟨hname, ih hlater⟩

/-- Where there are no old names, a walk meets all names. -/
theorem mem_visits_iff {names : List String} (h : ∀ name ∈ names, renamedRules.lookup name = none)
    {name : String} : name ∈ walk.visits names ↔ name ∈ names := by
  have hmem := mem_of_isMet h (walk.isMet names)
  exact ⟨hmem name, walk.complete (fun other hother => h other (hmem other hother)) name⟩

theorem accepted_of_review {s s' : Selection} {names : List String}
    (h : review known listed s names = (notes, .ok s')) {name : String} (hname : name ∈ names) :
    Accepted known name := by
  induction names generalizing s notes with
  | nil => simp at hname
  | cons first names ih =>
    rw [review] at h
    split at h
    · next new hold =>
      split at h
      · simp at h
      · simp only [Prod.mk.injEq] at h
        rcases List.mem_cons.mp hname with rfl | hrest
        · exact Or.inr (by simp [hold])
        · exact ih (Prod.ext rfl h.2) hrest
    · split at h
      · next hknown =>
        rcases List.mem_cons.mp hname with rfl | hrest
        · exact Or.inl (List.contains_iff_mem.mp hknown)
        · exact ih h hrest
      · simp at h

@[simp] theorem mem_renameIn_iff (old new name : String) (names : List String) :
    name ∈ renameIn old new names ↔ (name ∈ names ∧ name ≠ old) ∨ (name = new ∧ old ∈ names) := by
  unfold renameIn
  split
  · next h =>
    have hold : old ∈ names := List.contains_iff_mem.mp h
    rw [Text.mem_insertText, List.mem_filter]
    simp [hold]
  · next h =>
    have hold : old ∉ names := mt List.contains_iff_mem.mpr h
    constructor
    · intro hname
      exact Or.inl ⟨hname, fun heq => hold (heq ▸ hname)⟩
    · rintro (hname | hname)
      · exact hname.1
      · exact absurd hname.2 hold

/-- A review takes none but old names out of the excluded ones. -/
theorem mem_excluded_of_review {s s' : Selection} {names : List String}
    (h : review known listed s names = (notes, .ok s')) {name : String} (hname : name ∈ s.excluded) :
    (renamedRules.lookup name).isSome = true ∨ name ∈ s'.excluded := by
  induction names generalizing s notes with
  | nil =>
    simp only [review, Prod.mk.injEq, Except.ok.injEq] at h
    exact Or.inr (h.2 ▸ hname)
  | cons first names ih =>
    rw [review] at h
    split at h
    · next new hold =>
      split at h
      · simp at h
      · simp only [Prod.mk.injEq] at h
        by_cases hfirst : name = first
        · simp [hfirst, hold]
        · exact ih (Prod.ext rfl h.2) ((mem_renameIn_iff _ _ _ _).mpr (Or.inl ⟨hname, hfirst⟩))
    · split at h
      · exact ih h hname
      · simp at h

/-- A review without old names gives no notes, and ends with the first name that is not known. -/
theorem review_of_current (known : List String) (listed : Selection → List String) (s : Selection)
    {names : List String} (h : ∀ name ∈ names, renamedRules.lookup name = none) :
    (∀ name ∈ names, name ∈ known) ∧ review known listed s names = ([], .ok s) ∨
      ∃ name ∈ names, name ∉ known ∧
        review known listed s names = ([], .error (.unknownRule name (Suggestion.hint name known))) := by
  induction names with
  | nil => exact Or.inl ⟨by simp, rfl⟩
  | cons name names ih =>
    rw [List.forall_mem_cons] at h
    by_cases hknown : name ∈ known
    · have hskip : review known listed s (name :: names) = review known listed s names := by
        rw [review, h.1]
        simp only [List.contains_iff_mem.mpr hknown, if_true]
      rw [hskip]
      rcases ih h.2 with ⟨hall, hreview⟩ | ⟨other, hother, hreview⟩
      · exact Or.inl ⟨List.forall_mem_cons.mpr ⟨hknown, hall⟩, hreview⟩
      · exact Or.inr ⟨other, List.mem_cons_of_mem _ hother, hreview⟩
    · refine Or.inr ⟨name, List.mem_cons_self, hknown, ?_⟩
      have hunknown : ¬ known.contains name = true := fun hmem => hknown (List.contains_iff_mem.mp hmem)
      rw [review, h.1]
      simp only [if_neg hunknown]

/-- The two reviews of an accepted selection. -/
theorem exists_of_validate {s s' : Selection} (h : s.validate walk known = (notes, .ok s')) :
    ∃ first mid second, review known (·.included) s (walk.visits s.included) = (first, .ok mid) ∧
      review known (·.excluded) mid (walk.visits mid.excluded) = (second, .ok s') := by
  unfold validate at h
  split at h
  · simp at h
  · next first mid hfirst =>
    rw [Prod.mk.injEq] at h
    exact ⟨first, mid, _, hfirst, Prod.ext rfl h.2⟩

/-- Where walks leave no name out, the names of an accepted selection are all known or old. -/
theorem allAccepted_of_validate {s s' : Selection} (hfull : ∀ names, names ⊆ walk.visits names)
    (h : s.validate walk known = (notes, .ok s')) : s.AllAccepted known := by
  obtain ⟨first, mid, second, hfirst, hsecond⟩ := exists_of_validate h
  refine List.forall_mem_append.mpr ⟨fun name hname => ?_, fun name hname => ?_⟩
  · exact accepted_of_review hfirst (hfull _ hname)
  · rcases mem_excluded_of_review hfirst hname with hold | hkept
    · exact Or.inr hold
    · exact accepted_of_review hsecond (hfull _ hkept)

/-- A selection without old names is accepted as it is, unless one of its names is not known. -/
theorem validate_of_isCurrent (walk : Walk) (known : List String) {s : Selection} (hs : s.IsCurrent) :
    (∀ name ∈ s.entries, name ∈ known) ∧ s.validate walk known = ([], .ok s) ∨
      ∃ name ∈ s.entries, name ∉ known ∧
        s.validate walk known = ([], .error (.unknownRule name (Suggestion.hint name known))) := by
  rw [IsCurrent, entries, List.forall_mem_append] at hs
  have hincluded {name : String} := @mem_visits_iff walk _ hs.1 name
  have hexcluded {name : String} := @mem_visits_iff walk _ hs.2 name
  rcases review_of_current known (·.included) s fun name hname => hs.1 name (hincluded.mp hname) with
    ⟨hfirst, hreview⟩ | ⟨name, hname, hunknown, hreview⟩
  · rcases review_of_current known (·.excluded) s fun name hname => hs.2 name (hexcluded.mp hname) with
      ⟨hsecond, hreview'⟩ | ⟨name, hname, hunknown, hreview'⟩
    · refine Or.inl ⟨List.forall_mem_append.mpr ⟨fun name hname => hfirst name (hincluded.mpr hname),
        fun name hname => hsecond name (hexcluded.mpr hname)⟩, ?_⟩
      simp only [validate, hreview, hreview', List.append_nil]
    · refine Or.inr ⟨name, List.mem_append_right _ (hexcluded.mp hname), hunknown, ?_⟩
      simp only [validate, hreview, hreview', List.append_nil]
  · refine Or.inr ⟨name, List.mem_append_left _ (hincluded.mp hname), hunknown, ?_⟩
    simp only [validate, hreview]

private theorem accepted_iff_of_lookup {name : String} (h : renamedRules.lookup name = none) :
    Accepted known name ↔ name ∈ known := by simp [Accepted, h]

theorem IsCurrent.allAccepted_iff {s : Selection} (h : s.IsCurrent) :
    s.AllAccepted known ↔ ∀ name ∈ s.entries, name ∈ known :=
  forall₂_congr fun name hname => accepted_iff_of_lookup (h name hname)

theorem entries_renewed (s : Selection) : s.renewed.entries = s.entries.map newName :=
  List.map_append.symm

private theorem isCurrent_renewed (s : Selection) : s.renewed.IsCurrent := by
  rw [IsCurrent, entries_renewed, List.forall_mem_map]
  exact fun name _ => lookup_newName name

theorem accepted_newName_iff (host : Host) (name : String) :
    Accepted host.known (newName name) ↔ Accepted host.known name := by
  cases hold : renamedRules.lookup name with
  | none => rw [newName_of_lookup_none hold]
  | some new =>
    rw [newName_of_lookup_some hold]
    exact iff_of_true (Or.inl (host.mem_known.mpr (new_known _ (Lookup.mem_of_eq_some hold))))
      (Or.inr (by simp [hold]))

private theorem allAccepted_renewed_iff (s : Selection) (host : Host) :
    s.renewed.AllAccepted host.known ↔ s.AllAccepted host.known := by
  simp only [AllAccepted, entries_renewed, List.forall_mem_map, accepted_newName_iff]

/-! ## What old names do -/

def isOpen (s : Selection) : Bool := s.included.isEmpty && s.includedGlobs.isEmpty

theorem allows_iff (s : Selection) (r : Rule) :
    s.allows r = true ↔ ¬ isNamed r s.excluded s.excludedGlobs = true ∧
      (s.isOpen = true ∨ isNamed r s.included s.includedGlobs = true) := by
  simp only [allows, isOpen, Bool.and_eq_true, Bool.or_eq_true, Bool.not_eq_true', Bool.not_eq_true]

theorem allows_renewed_iff (s : Selection) (key : RuleKey) :
    s.renewed.allows key.rule = true ↔
      ¬ (isNamed key.rule s.excluded s.excludedGlobs = true ∨ key.HasOldNameIn s.excluded) ∧
        (s.isOpen = true ∨ isNamed key.rule s.included s.includedGlobs = true ∨
          key.HasOldNameIn s.included) := by
  have hopen : s.renewed.isOpen = s.isOpen := by simp [isOpen, renewed]
  rw [allows_iff, hopen]
  simp only [renewed, isNamed_newName]

end Selection

namespace Options

def renewed (o : Options) : Options := { o with selection := o.selection.renewed }

/-- With new names for the old ones of `renamedRules` in `--include` and `--exclude`, accepted options are
accepted exactly if all names are known or old, as they are where walks through a set leave none out. Then the
same rules are on, exactly if no rule is on that has an old name among the excluded ones, and none is off that
has an old name among the included ones, reaches the threshold and is excluded by no name, old or new. -/
theorem renewed_enables_alike_iff (o : Options) {host : Host} {notes : List String} {s : Setup}
    (h : o.setup host = (notes, .ok s)) :
    ((∃ s', o.renewed.setup host = ([], .ok s')) ↔ o.selection.AllAccepted host.known) ∧
      ((∀ names, names ⊆ host.walk.visits names) → o.selection.AllAccepted host.known) ∧
      ∀ notes' s', o.renewed.setup host = (notes', .ok s') →
        ((∀ key : RuleKey, s.linter.registry.enables key.id = s'.linter.registry.enables key.id) ↔
          ∀ key : RuleKey,
            (key.HasOldNameIn o.selection.excluded → s.linter.registry.enables key.id = false) ∧
            (key.HasOldNameIn o.selection.included → o.selection.threshold ≤ key.severity →
              ¬ Selection.isNamed key.rule o.selection.excluded o.selection.excludedGlobs = true →
              ¬ key.HasOldNameIn o.selection.excluded →
                s.linter.registry.enables key.id = true)) := by
  obtain ⟨⟨names, hnames⟩, t, hsettings, -⟩ := setup_ok_iff.mp h
  have hcurrent := o.selection.isCurrent_renewed
  have hvalid := Selection.validate_of_isCurrent host.walk host.known hcurrent
  rw [← hcurrent.allAccepted_iff, Selection.allAccepted_renewed_iff] at hvalid
  refine ⟨⟨?_, fun hall => ?_⟩, fun hfull => Selection.allAccepted_of_validate hfull hnames,
    fun notes' s' h' => ?_⟩
  · rintro ⟨s', h'⟩
    obtain ⟨⟨names', hnames'⟩, -⟩ := setup_ok_iff.mp h'
    rcases hvalid with hvalid | ⟨name, -, -, herror⟩
    · exact hvalid.1
    · cases hnames'.symm.trans herror
  · rcases hvalid with hvalid | ⟨name, hname, hunknown, -⟩
    · exact ⟨⟨⟨host, .tuned host o.renewed.selection.picks t, .blank⟩, s.reports⟩,
        setup_ok_iff.mpr ⟨⟨_, hvalid.2⟩, t, hsettings, rfl⟩⟩
    · rw [← Selection.allAccepted_renewed_iff, hcurrent.allAccepted_iff] at hall
      exact absurd (hall name hname) hunknown
  apply forall_congr'
  intro key
  have hold := (o.enables_iff h key).trans (and_congr_right' (o.selection.allows_iff key.rule))
  have hnew := (o.renewed.enables_iff h' key).trans
    (and_congr_right' (o.selection.allows_renewed_iff key))
  rw [Bool.eq_iff_iff, hnew, Bool.eq_false_iff, Ne, hold]
  change (o.selection.threshold ≤ key.severity ∧ _ ↔ o.selection.threshold ≤ key.severity ∧ _) ↔ _
  -- the two differ in the old names only
  grind

def selecting (included excluded : List String) : Options :=
  { standard with
    selection := { Selection.everything with included := included, excluded := excluded } }

private theorem setup_selecting (included excluded : List String) {notes : List String}
    {names : Selection}
    (h : (selecting included excluded).selection.validate Host.plain.walk Host.plain.known =
      (notes, .ok names)) :
    (selecting included excluded).setup .plain =
      (notes, .ok ⟨⟨.plain, .tuned .plain (selecting included excluded).selection.picks .start, .blank⟩,
        .ofNames ["return_status"]⟩) := by
  rw [setup_ok_iff]
  exact ⟨⟨names, h⟩, .start, rfl, rfl⟩

/-- An old name among the excluded ones makes no difference for a rule that is not included. -/
theorem renewed_enables_alike_iff_notIncluded :
    ∃ s s' : Setup,
      (selecting ["0401"] ["0304"]).setup .plain = ([Selection.renameNote "0304" "0406"], .ok s) ∧
      (selecting ["0401"] ["0304"]).renewed.setup .plain = ([], .ok s') ∧
      ∀ key : RuleKey, s.linter.registry.enables key.id = s'.linter.registry.enables key.id := by
  have hsetup := setup_selecting ["0401"] ["0304"] rfl
  obtain ⟨haccepted, hfull, halike⟩ := renewed_enables_alike_iff _ hsetup
  obtain ⟨s', hsetup'⟩ := haccepted.mpr (hfull fun _ _ => List.mem_eraseDups.mpr)
  refine ⟨_, s', hsetup, hsetup', (halike [] s' hsetup').mpr fun key => ⟨?_, ?_⟩⟩
  · rintro ⟨old, hold, new, hnew, hcalled⟩
    obtain rfl := List.mem_singleton.mp hold
    obtain rfl : "0406" = new := Option.some.inj hnew
    obtain rfl : key = .notEnoughWhitespaceAfterNewlineMarker := by
      obtain ⟨c, hc⟩ := Checker.owner?_eq_of_isCalled hcalled
      exact congrArg Prod.snd (Option.some.inj (hc.symm.trans rfl))
    rw [Bool.eq_false_iff, Ne, enables_iff _ hsetup]
    exact fun hon => absurd hon.2 (by decide)
  · rintro ⟨old, hold, new, hnew, -⟩
    obtain rfl := List.mem_singleton.mp hold
    have hnone : Selection.renamedRules.lookup "0401" = none := by decide
    simp [hnone] at hnew

/-- A rule that is included by its old id only is off, and on by its new id. -/
theorem rule_included_by_old_id_is_off :
    ∃ s s' : Setup,
      (selecting ["0304"] []).setup .plain = ([Selection.renameNote "0304" "0406"], .ok s) ∧
      (selecting ["0304"] []).renewed.setup .plain = ([], .ok s') ∧
      s.linter.registry.enables RuleKey.notEnoughWhitespaceAfterNewlineMarker.id = false ∧
      s'.linter.registry.enables RuleKey.notEnoughWhitespaceAfterNewlineMarker.id = true := by
  have hsetup := setup_selecting ["0304"] [] rfl
  have hsetup' := setup_selecting ["0406"] [] rfl
  refine ⟨_, _, hsetup, hsetup', ?_, ?_⟩
  · rw [Bool.eq_false_iff, Ne, enables_iff _ hsetup]
    exact fun hon => absurd hon.2 (by decide)
  · rw [enables_iff _ hsetup']
    exact ⟨by decide, by decide⟩

end Options

end SuiteLint
