import SuiteLint.Proofs.AssignedOptions
import SuiteLint.Proofs.GlobForms
import SuiteLint.Proofs.RenamedRules
import SuiteLint.Proofs.ReportTotals
import SuiteLint.Proofs.RuleReports
import SuiteLint.Proofs.SeverityLetters

/-!
# Rules that are selected by patterns

An entry of `--include` or `--exclude` is taken for a pattern if it has a star in it. One with question marks
or sets only is taken for a name, which no rule has. So the lists act as they are written exactly if every
pattern has a star.
-/

namespace SuiteLint

/-! ## Entries -/

def Selection.IsPattern (entry : String) : Prop :=
  '*' ∈ entry.toList ∨ '?' ∈ entry.toList ∨
    ∃ before rest, entry.toList = before ++ '[' :: rest ∧ (Text.Glob.bracketBody rest).isSome = true

def RuleKey.IsMeantBy (key : RuleKey) (entry : String) : Prop :=
  key.IsCalled entry ∨ Selection.IsPattern entry ∧
    (Text.Fits entry.toList key.id.toList ∨ Text.Fits entry.toList key.name.toList)

namespace Selection

def Chooses (s : Selection) (key : RuleKey) : Prop :=
  s.threshold ≤ key.severity ∧ (∀ entry ∈ s.excluded, ¬ key.IsMeantBy entry) ∧
    (s.included = [] ∨ ∃ entry ∈ s.included, key.IsMeantBy entry)

def unlettered (s : Selection) : Selection :=
  { s with included := s.included.map withoutSeverity, excluded := s.excluded.map withoutSeverity }

def BearsLetter (entry : String) : Prop :=
  ∃ letter digits rest, entry.toList = letter :: (digits ++ rest) ∧ isSeverityLetter letter = true ∧
    digits.length = 4 ∧ ∀ d ∈ digits, d.isDigit = true

/-! ## The letters of severities -/

theorem withoutSeverity_eq_or (entry : String) :
    withoutSeverity entry = entry ∨ BearsLetter entry ∧
      withoutSeverity entry = String.ofList (entry.toList.filter (!isSeverityLetter ·)) := by
  unfold withoutSeverity
  split
  · next c rest hentry =>
    split
    · next hlettered =>
      rw [Bool.and_eq_true, decide_eq_true_eq] at hlettered
      have hrest : rest = (rest.takeWhile Char.isDigit).take 4 ++
          ((rest.takeWhile Char.isDigit).drop 4 ++ rest.dropWhile Char.isDigit) := by
        rw [← List.append_assoc, List.take_append_drop, List.takeWhile_append_dropWhile]
      refine Or.inr ⟨⟨c, _, _, hentry.trans (congrArg _ hrest), hlettered.1, ?_, ?_⟩, rfl⟩
      · rw [List.length_take]
        omega
      · intro d hd
        exact List.all_eq_true.mp List.all_takeWhile d (List.mem_of_mem_take hd)
    · exact Or.inl rfl
  · exact Or.inl rfl

theorem mem_withoutSeverity {c : Char} (hc : isSeverityLetter c = false) (entry : String) :
    c ∈ (withoutSeverity entry).toList ↔ c ∈ entry.toList := by
  rcases withoutSeverity_eq_or entry with heq | ⟨-, heq⟩
  · rw [heq]
  · rw [heq, String.toList_ofList, List.mem_filter, hc]
    simp

theorem unlettered_eq {s : Selection} (h : ∀ entry ∈ s.entries, ¬ BearsLetter entry) :
    s.unlettered = s := by
  have hsame (names : List String) (hnames : ∀ entry ∈ names, ¬ BearsLetter entry) :
      names.map withoutSeverity = names := by
    rw [List.map_congr_left (g := id), List.map_id]
    intro entry hentry
    exact (withoutSeverity_eq_or entry).resolve_right fun hletter => hnames entry hentry hletter.1
  rw [entries, List.forall_mem_append] at h
  rw [unlettered, hsame _ h.1, hsame _ h.2]

end Selection

/-! ## The names of rules -/

private theorem Text.all_of_eq {s : String} {chars : List Char} {p : Char → Bool} (h : s = String.ofList chars)
    (hall : chars.all p = true) : s.toList.all p = true := by
  rw [toList_of_eq h, hall]

def RuleKey.isNameSign (c : Char) : Bool := c.isLower || c.isDigit || c == '-'

theorem RuleKey.isNameSign_of_isCalled {key : RuleKey} {name : String} (h : key.IsCalled name) :
    ∀ c ∈ name.toList, isNameSign c = true := by
  apply List.all_eq_true.mp
  rcases h with rfl | rfl
  · cases key <;> exact Text.all_of_eq rfl rfl
  · cases key <;> exact Text.all_of_eq rfl rfl

theorem Checker.mem_known_iff {name : String} :
    name ∈ directory.map (·.1) ↔ ∃ key : RuleKey, key.IsCalled name := by
  constructor
  · intro h
    obtain ⟨⟨_, c, key⟩, hentry, rfl⟩ := List.mem_map.mp h
    exact ⟨key, (mem_directory.mp hentry).2.2⟩
  · rintro ⟨key, hcalled⟩
    obtain ⟨c, hc⟩ := exists_mem_keys key
    exact List.mem_map.mpr ⟨_, mem_directory.mpr ⟨c.mem_all, hc, hcalled⟩, rfl⟩

namespace Selection

private theorem isNameSign_old : ∀ entry ∈ renamedRules,
    entry.1.toList.all RuleKey.isNameSign = true := by decide +kernel

theorem unknown_of_sign {entry : String} {c : Char} (hc : c ∈ entry.toList)
    (hsign : RuleKey.isNameSign c = false) :
    entry ∉ Checker.directory.map (·.1) ∧ renamedRules.lookup entry = none := by
  constructor
  · intro hknown
    obtain ⟨key, hcalled⟩ := Checker.mem_known_iff.mp hknown
    rw [RuleKey.isNameSign_of_isCalled hcalled c hc] at hsign
    exact Bool.noConfusion hsign
  · cases hold : renamedRules.lookup entry with
    | none => rfl
    | some new =>
      have hall := List.all_eq_true.mp (isNameSign_old _ (Lookup.mem_of_eq_some hold)) c hc
      rw [hall] at hsign
      exact Bool.noConfusion hsign

theorem IsPattern.exists_sign {entry : String} (h : IsPattern entry) :
    ∃ c ∈ (withoutSeverity entry).toList, RuleKey.isNameSign c = false := by
  rcases h with hstar | hmark | ⟨before, rest, hbracket, -⟩
  · exact ⟨'*', (mem_withoutSeverity (by decide) entry).mpr hstar, by decide⟩
  · exact ⟨'?', (mem_withoutSeverity (by decide) entry).mpr hmark, by decide⟩
  · have hmem : '[' ∈ entry.toList := hbracket ▸ List.mem_append_right _ List.mem_cons_self
    exact ⟨'[', (mem_withoutSeverity (by decide) entry).mpr hmem, by decide⟩

theorem withoutSeverity_of_isCalled {key : RuleKey} {name : String} (h : key.IsCalled name) :
    withoutSeverity name = name := by
  refine (withoutSeverity_eq_or name).resolve_right ?_
  rintro ⟨⟨letter, digits, rest, hname, hletter, -⟩, -⟩
  have hsign := RuleKey.isNameSign_of_isCalled h letter (hname ▸ List.mem_cons_self)
  simp only [isSeverityLetter, Bool.or_eq_true, beq_iff_eq] at hletter
  rcases hletter with (rfl | rfl) | rfl <;> exact absurd hsign (by decide)

/-! ## Names and globs apart -/

theorem isGlob_iff {entry : String} : isGlob entry = true ↔ '*' ∈ entry.toList :=
  List.contains_iff_mem

theorem isGlob_withoutSeverity (entry : String) : isGlob (withoutSeverity entry) = isGlob entry := by
  rw [Bool.eq_iff_iff, isGlob_iff, isGlob_iff]
  exact mem_withoutSeverity (by decide) entry

@[simp] theorem mem_splitNames {name : String} {names : List String} :
    name ∈ (splitNames names).1 ↔ name ∈ names ∧ isGlob name = false := by
  rw [splitNames, (Text.distinct_perm_dedup _).mem_iff, List.mem_dedup, List.mem_filter]
  simp

/-- Where all patterns have stars, a rule stands among names and globs exactly if some entry means it. -/
theorem isNamed_splitNames (names : List String)
    (h : ∀ entry ∈ names, IsPattern entry → isGlob entry = true) (key : RuleKey) :
    isNamed key.rule (splitNames names).1 (splitNames names).2 = true ↔
      ∃ entry ∈ names, key.IsMeantBy entry := by
  have hglob : (splitNames names).2.any key.rule.matchesGlob = true ↔
      ∃ entry ∈ names, isGlob entry = true ∧
        (Text.Fits entry.toList key.id.toList ∨ Text.Fits entry.toList key.name.toList) := by
    simp only [splitNames, List.any_map, List.any_eq_true, List.mem_filter, and_assoc,
      Function.comp, Rule.matchesGlob, Bool.or_eq_true, Text.Glob.accepts_parse_iff]
    rfl
  rw [isNamed_iff, hglob]
  constructor
  · rintro (⟨name, hname, hcalled⟩ | ⟨entry, hentry, hstar, hfits⟩)
    · exact ⟨name, (mem_splitNames.mp hname).1, Or.inl hcalled⟩
    · exact ⟨entry, hentry, Or.inr ⟨Or.inl (isGlob_iff.mp hstar), hfits⟩⟩
  · rintro ⟨entry, hentry, hcalled | ⟨hpattern, hfits⟩⟩
    · refine Or.inl ⟨entry, mem_splitNames.mpr ⟨hentry, ?_⟩, hcalled⟩
      rw [Bool.eq_false_iff, Ne, isGlob_iff]
      intro hstar
      exact absurd (RuleKey.isNameSign_of_isCalled hcalled '*' hstar) (by decide)
    · exact Or.inr ⟨entry, hentry, h entry hentry hpattern, hfits⟩

/-! ## What a tidied selection chooses -/

variable {s : Selection}

/-- The entries of a selection are names, ids and patterns, and its globs are not yet apart. -/
structure IsListed (s : Selection) : Prop where
  entry : ∀ entry ∈ s.entries, (∃ key : RuleKey, key.IsCalled entry) ∨ IsPattern entry
  includedGlobs : s.includedGlobs = []
  excludedGlobs : s.excludedGlobs = []

def IsStarred (s : Selection) : Prop := ∀ entry ∈ s.entries, IsPattern entry → '*' ∈ entry.toList

@[simp] theorem mem_entries_tidy {name : String} :
    name ∈ s.tidy.entries ↔ ∃ entry ∈ s.entries, isGlob entry = false ∧ withoutSeverity entry = name := by
  simp only [entries, tidy, List.mem_append, mem_splitNames, List.mem_map]
  constructor
  · rintro (⟨⟨entry, hentry, rfl⟩, hplain⟩ | ⟨⟨entry, hentry, rfl⟩, hplain⟩)
    · exact ⟨entry, Or.inl hentry, isGlob_withoutSeverity entry ▸ hplain, rfl⟩
    · exact ⟨entry, Or.inr hentry, isGlob_withoutSeverity entry ▸ hplain, rfl⟩
  · rintro ⟨entry, hentry | hentry, hplain, rfl⟩
    · exact Or.inl ⟨⟨entry, hentry, rfl⟩, (isGlob_withoutSeverity entry).trans hplain⟩
    · exact Or.inr ⟨⟨entry, hentry, rfl⟩, (isGlob_withoutSeverity entry).trans hplain⟩

/-- A name of a tidied selection is that of a rule, or a pattern without a star that no rule has. -/
theorem IsListed.of_mem_tidy (h : s.IsListed) {name : String} (hname : name ∈ s.tidy.entries) :
    renamedRules.lookup name = none ∧
      (name ∈ Checker.directory.map (·.1) ∨
        ∃ entry ∈ s.entries, IsPattern entry ∧ '*' ∉ entry.toList ∧ withoutSeverity entry = name) := by
  obtain ⟨entry, hentry, hplain, rfl⟩ := mem_entries_tidy.mp hname
  rcases h.entry entry hentry with ⟨key, hcalled⟩ | hpattern
  · rw [withoutSeverity_of_isCalled hcalled]
    exact ⟨lookup_of_isCalled hcalled, Or.inl (Checker.mem_known_iff.mpr ⟨key, hcalled⟩)⟩
  · obtain ⟨c, hc, hsign⟩ := hpattern.exists_sign
    have hstar : '*' ∉ entry.toList := fun hstar => by simp [isGlob_iff.mpr hstar] at hplain
    exact ⟨(unknown_of_sign hc hsign).2, Or.inr ⟨entry, hentry, hpattern, hstar, rfl⟩⟩

theorem IsListed.known_iff (h : s.IsListed) :
    (∀ name ∈ s.tidy.entries, name ∈ Checker.directory.map (·.1)) ↔ s.IsStarred := by
  constructor
  · intro hknown entry hentry hpattern
    by_contra hstar
    have hplain : isGlob entry = false := by rwa [Bool.eq_false_iff, Ne, isGlob_iff]
    obtain ⟨c, hc, hsign⟩ := hpattern.exists_sign
    exact (unknown_of_sign hc hsign).1 (hknown _ (mem_entries_tidy.mpr ⟨entry, hentry, hplain, rfl⟩))
  · intro hstarred name hname
    refine (h.of_mem_tidy hname).2.resolve_right ?_
    rintro ⟨entry, hentry, hpattern, hstar, -⟩
    exact hstar (hstarred entry hentry hpattern)

theorem IsListed.isGlob_of_mem_unlettered (h : s.IsListed) (hstarred : s.IsStarred) {entry : String}
    (hentry : entry ∈ s.unlettered.entries) (hpattern : IsPattern entry) : isGlob entry = true := by
  rw [entries, unlettered, ← List.map_append] at hentry
  obtain ⟨entry, hmem, rfl⟩ := List.mem_map.mp hentry
  rw [isGlob_withoutSeverity, isGlob_iff]
  rcases h.entry entry hmem with ⟨key, hcalled⟩ | hlisted
  · -- a name has none of the signs of patterns
    rw [withoutSeverity_of_isCalled hcalled] at hpattern
    obtain ⟨c, hc, hsign⟩ := hpattern.exists_sign
    rw [withoutSeverity_of_isCalled hcalled] at hc
    rw [RuleKey.isNameSign_of_isCalled hcalled c hc] at hsign
    exact Bool.noConfusion hsign
  · exact hstarred entry hmem hlisted

/-- With stars in all patterns, a tidied selection chooses as the lists say without letters. -/
theorem IsListed.chooses_iff (h : s.IsListed) (hstarred : s.IsStarred) (key : RuleKey) :
    s.threshold ≤ key.severity ∧ s.tidy.allows key.rule = true ↔ s.unlettered.Chooses key := by
  have hglob {entry : String} (hentry : entry ∈ s.unlettered.entries) (hpattern : IsPattern entry) :=
    h.isGlob_of_mem_unlettered hstarred hentry hpattern
  have hincluded := isNamed_splitNames (s.included.map withoutSeverity)
    (fun entry hentry => hglob (List.mem_append_left _ hentry)) key
  have hexcluded := isNamed_splitNames (s.excluded.map withoutSeverity)
    (fun entry hentry => hglob (List.mem_append_right _ hentry)) key
  have hopen : s.tidy.isOpen = true ↔ s.included.map withoutSeverity = [] := by
    rw [← splitNames_eq_nil_iff, Prod.ext_iff]
    simp [isOpen, tidy, h.includedGlobs]
  rw [allows_iff, hopen]
  simp only [tidy, h.includedGlobs, h.excludedGlobs, List.nil_append, hincluded, hexcluded]
  simp only [Chooses, unlettered, not_exists, not_and]

end Selection

namespace Options

/-- Without settings and old names, options are refused only for a name that is not known. -/
theorem setup_of_isCurrent (o : Options) (host : Host) (hsettings : o.settings = [])
    (h : o.selection.IsCurrent) :
    (∀ name ∈ o.selection.entries, name ∈ host.known) ∧ (∃ s, o.setup host = ([], .ok s)) ∨
      ∃ name ∈ o.selection.entries, name ∉ host.known ∧
        ∃ hint, o.setup host = ([], .error (.unknownRule name hint)) := by
  rcases Selection.validate_of_isCurrent host.walk host.known h with
    ⟨hknown, hvalid⟩ | ⟨name, hname, hunknown, hvalid⟩
  · refine Or.inl ⟨hknown, ⟨⟨host, .tuned host o.selection.picks .start, .blank⟩,
      .ofNames o.reports⟩, ?_⟩
    rw [setup_ok_iff, hsettings]
    exact ⟨⟨_, hvalid⟩, .start, rfl, rfl⟩
  · refine Or.inr ⟨name, hname, hunknown, Suggestion.hint name host.known, ?_⟩
    rw [setup_eq, hvalid]
    rfl

open Selection

/-- Options without `--configure` whose `--include` and `--exclude` hold names, ids and patterns are accepted
exactly if every pattern has a `*`, and then the rules are on that the lists choose without letters of
severities. Otherwise they are refused, with a pattern that has no `*` as a rule that does not exist. Where no
entry bears the letter of a severity, nothing is dropped, and the lists choose as they are written. -/
theorem patterns_choose_iff_starred (o : Options) (host : Host) (hsettings : o.settings = [])
    (hlisted : o.selection.IsListed) :
    ((∃ s, o.tidy.setup host = ([], .ok s) ∧ ∀ key : RuleKey,
        s.linter.registry.enables key.id = true ↔ o.selection.unlettered.Chooses key) ↔
      o.selection.IsStarred) ∧
    (¬ o.selection.IsStarred → ∃ entry ∈ o.selection.entries, IsPattern entry ∧
      '*' ∉ entry.toList ∧
        ∃ hint, o.tidy.setup host = ([], .error (.unknownRule (withoutSeverity entry) hint))) ∧
    ((∀ entry ∈ o.selection.entries, ¬ BearsLetter entry) → o.selection.unlettered = o.selection) := by
  have hcurrent : ∀ name ∈ o.tidy.selection.entries, renamedRules.lookup name = none :=
    fun name hname => (hlisted.of_mem_tidy hname).1
  have htidy : o.tidy.settings = [] := by rw [tidy, hsettings]; rfl
  have hsetup := setup_of_isCurrent o.tidy host htidy hcurrent
  simp only [Host.mem_known] at hsetup
  refine ⟨⟨?_, fun hstarred => ?_⟩, fun hstarred => ?_, unlettered_eq⟩
  · rintro ⟨s, hs, -⟩
    rcases hsetup with ⟨hknown, -⟩ | ⟨name, -, -, hint, herror⟩
    · exact hlisted.known_iff.mp hknown
    · rw [hs] at herror
      cases herror
  · rcases hsetup with ⟨-, s, hs⟩ | ⟨name, hname, hunknown, -⟩
    · refine ⟨s, hs, fun key => ?_⟩
      rw [enables_iff _ hs key]
      exact hlisted.chooses_iff hstarred key
    · exact absurd (hlisted.known_iff.mpr hstarred name hname) hunknown
  · rcases hsetup with ⟨hknown, -⟩ | ⟨name, hname, hunknown, hint, herror⟩
    · exact absurd (hlisted.known_iff.mp hknown) hstarred
    · obtain ⟨entry, hentry, hpattern, hstar, rfl⟩ :=
        (hlisted.of_mem_tidy hname).2.resolve_left hunknown
      exact ⟨entry, hentry, hpattern, hstar, hint, herror⟩

def starred : Options := selecting ["0301", "*doc*"] ["02?[13]*"]

theorem isListed_starred : starred.selection.IsListed where
  entry := by
    have hpatterns : ∀ entry ∈ ["*doc*", "02?[13]*"], '*' ∈ entry.toList := by decide
    intro entry hentry
    rcases List.mem_cons.mp hentry with rfl | hrest
    · exact Or.inl ⟨.notAllowedCharInName, Or.inr rfl⟩
    · exact Or.inr (Or.inl (hpatterns entry hrest))
  includedGlobs := rfl
  excludedGlobs := rfl

theorem patterns_choose_iff_starred_docs :
    starred.settings = [] ∧ starred.selection.IsListed ∧
      ∃ s, starred.tidy.setup .plain = ([], .ok s) ∧ ∀ key : RuleKey,
        s.linter.registry.enables key.id = true ↔ starred.selection.Chooses key := by
  obtain ⟨haccepted, -, hsame⟩ := patterns_choose_iff_starred starred .plain rfl isListed_starred
  have hstarred : starred.selection.IsStarred := by
    intro entry hentry hpattern
    rcases List.mem_cons.mp hentry with rfl | hrest
    · rcases hpattern with hstar | hmark | ⟨before, rest, hbracket, -⟩
      · exact hstar
      · exact absurd hmark (by decide)
      · have hmem : '[' ∈ "0301".toList := hbracket ▸ List.mem_append_right _ List.mem_cons_self
        exact absurd hmem (by decide)
    · have hall : ∀ entry ∈ ["*doc*", "02?[13]*"], '*' ∈ entry.toList := by decide
      exact hall entry hrest
  have hplain : ∀ entry ∈ starred.selection.entries, ¬ BearsLetter entry := by
    have hfronts : ∀ entry ∈ ["0301", "*doc*", "02?[13]*"],
        entry.toList.head?.any isSeverityLetter = false := by decide
    rintro entry hentry ⟨letter, digits, rest, htext, hletter, -⟩
    have hfront := hfronts entry hentry
    rw [htext, List.head?_cons, Option.any_some, hletter] at hfront
    exact Bool.noConfusion hfront
  rw [hsame hplain] at haccepted
  exact ⟨rfl, isListed_starred, haccepted.mpr hstarred⟩

/-- A pattern with a question mark is refused, although there are rules that it means. -/
theorem pattern_with_mark_refused :
    (selecting ["030?"] []).selection.IsListed ∧
      (selecting ["030?"] []).selection.Chooses .wrongCaseInKeywordName ∧
      ∃ hint, (selecting ["030?"] []).tidy.setup .plain = ([], .error (.unknownRule "030?" hint)) := by
  have hpattern : IsPattern "030?" := Or.inr (Or.inl (by decide))
  have hlisted : (selecting ["030?"] []).selection.IsListed :=
    ⟨fun entry hentry => Or.inr (List.mem_singleton.mp hentry ▸ hpattern), rfl, rfl⟩
  have hfits : Text.Fits "030?".toList "0302".toList := (Text.Glob.accepts_parse_iff _ _).mp (by decide)
  refine ⟨hlisted, ⟨by decide, by simp [selecting],
    Or.inr ⟨"030?", List.mem_cons_self, Or.inr ⟨hpattern, Or.inl hfits⟩⟩⟩, ?_⟩
  have hentries : (selecting ["030?"] []).tidy.selection.entries = ["030?"] := by decide
  have hunknown := @unknown_of_sign "030?" '?' (by decide) (by decide)
  rcases setup_of_isCurrent (selecting ["030?"] []).tidy .plain rfl
      (by rw [IsCurrent, hentries]; simpa using hunknown.2) with
    ⟨hknown, -⟩ | ⟨name, hname, -, hrefused⟩
  · exact absurd (Host.plain.mem_known.mp (hknown "030?" (by rw [hentries]; exact List.mem_cons_self)))
      hunknown.1
  · rw [hentries] at hname
    rwa [List.mem_singleton.mp hname] at hrefused

end Options

end SuiteLint
