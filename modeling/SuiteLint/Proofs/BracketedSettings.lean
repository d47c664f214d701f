import SuiteLint.Proofs.NameTokens

/-!
# Settings that are taken for calls

With a single blank after it, a setting in brackets, as `[Tags]`, becomes part of the name of a keyword. Such
calls are found by the names of the settings, of which `[Return]` is not looked for.
-/

namespace SuiteLint

namespace Text

theorem inRuns_of_apart {runs : List CodeRun} {c : Char} {gap : Nat × Nat}
    (h : runs.all (fun r => r.last < gap.1 || gap.2 < r.first) = true)
    (hc : gap.1 ≤ c.toNat ∧ c.toNat ≤ gap.2) : inRuns runs c = false := by
  rw [inRuns, List.any_eq_false]
  intro r hr
  have hapart := List.all_eq_true.mp h r hr
  rw [Bool.or_eq_true, decide_eq_true_iff, decide_eq_true_iff] at hapart
  simp only [CodeRun.has, Bool.and_eq_true, decide_eq_true_iff]
  omega

/-- Ranges of codes outside of words that hold all blanks past the first 128 codes. -/
def blankRanges : List (Nat × Nat) := [(128, 160), (5760, 5760), (8192, 8287), (12288, 12288)]

theorem isWord_of_isBlank {c : Char} (h : isBlank c = true) : isWord c = false := by
  have hcodes : ∀ n ∈ blankCodes, n < 128 ∧ isWord (Char.ofNat n) = false ∨
      128 ≤ n ∧ ∃ range ∈ blankRanges, range.1 ≤ n ∧ n ≤ range.2 := by
    decide
  have hapart : ∀ range ∈ blankRanges,
      alphanumericRuns.all (fun r => r.last < range.1 || range.2 < r.first) = true := by
    decide +kernel
  obtain ⟨-, hword⟩ | ⟨hlow, range, hrange, hin⟩ := hcodes c.toNat (toNat_mem_blankCodes h)
  · rwa [Char.ofNat_toNat] at hword
  · have hline : c ≠ '_' := by
      rintro rfl
      exact absurd hlow (by decide)
    rw [isWord, isAlphanumeric, if_neg (Nat.not_lt.mpr hlow),
      inRuns_of_apart (hapart range hrange) hin, beq_false_of_ne hline]
    rfl

private theorem isWord_of_mem_letterForms {c letter : Char} (hletter : isSmallLetter letter = true)
    (h : c ∈ letterForms letter) : isWord c = true := by
  have hall : (List.range' 97 26).all (fun n => (letterForms (Char.ofNat n)).all isWord) = true := by
    decide +kernel
  have hforms := List.all_eq_true.mp hall letter.toNat (mem_range_of_isSmallLetter hletter)
  rw [Char.ofNat_toNat] at hforms
  exact List.all_eq_true.mp hforms c h

private theorem Spells.all_isWord {s word : List Char} (h : Spells s word)
    (hword : word.all isSmallLetter = true) : ∀ c ∈ s, isWord c = true := by
  intro c hc
  obtain ⟨letter, hletter, hform⟩ := h.exists_letter hc
  exact isWord_of_mem_letterForms (List.all_eq_true.mp hword letter hletter) hform

end Text

namespace Check.KeywordCall

open Text

/-! ## A word in brackets -/

def IsGap (s : List Char) : Prop := s.length ≤ 1 ∧ s.all isBlank = true

instance (s : List Char) : Decidable (IsGap s) := inferInstanceAs (Decidable (_ ∧ _))

def IsBracketed (word whole : List Char) : Prop :=
  ∃ before after, IsGap before ∧ IsGap after ∧ whole = '[' :: (before ++ (word ++ (after ++ [']'])))

theorem exists_dropBlank (s : List Char) : ∃ gap, IsGap gap ∧ s = gap ++ dropBlank s := by
  cases s with
  | nil => exact ⟨[], by decide, rfl⟩
  | cons c rest =>
    rw [dropBlank]
    split
    · next hc => exact ⟨[c], ⟨Nat.le_refl 1, by simpa using hc⟩, rfl⟩
    · exact ⟨[], by decide, rfl⟩

theorem dropBlank_append {gap s : List Char} (h : IsGap gap) (hs : ∀ c ∈ s.head?, isBlank c = false) :
    dropBlank (gap ++ s) = s := by
  obtain ⟨hlength, hblank⟩ := h
  match gap, hlength with
  | [], _ =>
    cases s with
    | nil => rfl
    | cons c rest => simp [dropBlank, hs c rfl]
  | [c], _ =>
    have hc : isBlank c = true := by simpa using hblank
    simp [dropBlank, hc]

theorem isWord_head_gap {gap : List Char} (h : IsGap gap) (rest : List Char) :
    ∀ c ∈ (gap ++ ']' :: rest).head?, isWord c = false := by
  intro c hc
  cases gap with
  | nil =>
    obtain rfl := Option.some.inj hc
    decide
  | cons d gap =>
    obtain rfl := Option.some.inj hc
    exact isWord_of_isBlank (List.all_eq_true.mp h.2 d List.mem_cons_self)

theorem bracketed?_eq_some {s whole word : List Char} (h : bracketed? s = some (whole, word)) :
    whole <+: s ∧ word ≠ [] ∧ IsBracketed word whole := by
  unfold bracketed? at h
  split at h
  · next rest =>
    obtain ⟨before, hbefore, hrest⟩ := exists_dropBlank rest
    generalize dropBlank rest = inner at h hrest
    obtain ⟨after, hafter, htail⟩ := exists_dropBlank (inner.drop (inner.takeWhile isWord).length)
    simp only at h
    split at h
    · next c cs tail hword hclose =>
      obtain ⟨rfl, rfl⟩ := Prod.mk.inj (Option.some.inj h)
      rw [hclose] at htail
      have hinner : inner = inner.takeWhile isWord ++ (after ++ ']' :: tail) := by
        rw [← htail]
        exact (List.prefix_iff_eq_append.mp (List.takeWhile_prefix isWord)).symm
      have hsplit : '[' :: rest =
          ('[' :: (before ++ (inner.takeWhile isWord ++ (after ++ [']'])))) ++ tail := by
        rw [hrest]
        nth_rewrite 1 [hinner]
        simp
      have hwhole : ('[' :: rest).take (('[' :: rest).length - tail.length) =
          '[' :: (before ++ (inner.takeWhile isWord ++ (after ++ [']']))) := by
        rw [hsplit, List.length_append, Nat.add_sub_cancel, List.take_left]
      refine ⟨List.take_prefix _ _, ?_, before, after, hbefore, hafter, hwhole⟩
      rw [hword]
      exact List.cons_ne_nil c cs
    · cases h
  · cases h

theorem bracketed?_of_isBracketed {s whole word : List Char} (hstart : whole <+: s) (hne : word ≠ [])
    (hword : ∀ c ∈ word, isWord c = true) (h : IsBracketed word whole) :
    bracketed? s = some (whole, word) := by
  obtain ⟨before, after, hbefore, hafter, rfl⟩ := h
  obtain ⟨tail, rfl⟩ := hstart
  have hshape : '[' :: (before ++ (word ++ (after ++ [']']))) ++ tail =
      '[' :: (before ++ (word ++ (after ++ ']' :: tail))) := by simp
  have hinner : dropBlank (before ++ (word ++ (after ++ ']' :: tail))) = word ++ (after ++ ']' :: tail) := by
    apply dropBlank_append hbefore
    obtain ⟨c, cs, rfl⟩ := List.exists_cons_of_ne_nil hne
    intro d hd
    obtain rfl := Option.some.inj hd
    cases hblank : isBlank c with
    | false => rfl
    | true =>
      have hpart := hword c List.mem_cons_self
      rw [isWord_of_isBlank hblank] at hpart
      cases hpart
  have htake : (word ++ (after ++ ']' :: tail)).takeWhile isWord = word := by
    rw [List.takeWhile_append_of_pos hword]
    have hstop := isWord_head_gap hafter tail
    cases hrest : after ++ ']' :: tail with
    | nil => simp
    | cons c rest =>
      rw [hrest] at hstop
      simp [hstop c rfl]
  have hclose : dropBlank ((word ++ (after ++ ']' :: tail)).drop word.length) = ']' :: tail := by
    rw [List.drop_left]
    apply dropBlank_append hafter
    rintro c ⟨⟩
    decide
  rw [hshape, bracketed?]
  simp only [hinner, htake, hclose]
  obtain ⟨c, cs, rfl⟩ := List.exists_cons_of_ne_nil hne
  simp only
  rw [← hshape, List.length_append, Nat.add_sub_cancel, List.take_left]

/-! ## The names of settings -/

def listedSettings : List String :=
  (splitAt ',' (ParsingError.keywordSettings ++ "," ++ ParsingError.testCaseSettings).toList).map
    fun setting => String.ofList (lower (setting.filter Char.isAlpha))

theorem listedSettings_eq : listedSettings =
    ["documentation", "tags", "arguments", "return", "teardown", "timeout", "documentation", "tags",
      "setup", "teardown", "template", "timeout"] := by
  rw [listedSettings, String.toList_append, String.toList_append,
    toList_of_eq (s := ParsingError.keywordSettings) rfl,
    toList_of_eq (s := ParsingError.testCaseSettings) rfl]
  rfl

def Opens (names : List String) (text whole : String) : Prop :=
  whole.toList <+: text.toList ∧
    ∃ name ∈ names, ∃ word, Spells word name.toList ∧ IsBracketed word whole.toList

def AreWords (names : List String) : Prop :=
  ∀ name ∈ names, name ≠ "" ∧ name.toList.all isSmallLetter = true

def opening? (names : List String) (call : Statement) : Option String :=
  match bracketed? (call.keyword?.getD "").toList with
  | some (whole, word) =>
    if names.contains (String.ofList (lower word)) then some (String.ofList whole) else none
  | none => none

theorem opening?_eq_some_iff {names : List String} (hnames : AreWords names) {call : Statement}
    {whole : String} :
    opening? names call = some whole ↔ Opens names (call.keyword?.getD "") whole := by
  constructor
  · intro h
    unfold opening? at h
    split at h
    · next chars word hbracketed =>
      split at h
      · next hname =>
        obtain rfl := Option.some.inj h
        rw [List.contains_iff_mem] at hname
        obtain ⟨hstart, -, hwhole⟩ := bracketed?_eq_some hbracketed
        have hspells := (lower_eq_iff (hnames _ hname).2 word).mp String.toList_ofList.symm
        rw [← String.toList_ofList (l := chars)] at hstart hwhole
        exact ⟨hstart, _, hname, word, hspells, hwhole⟩
      · cases h
    · cases h
  · rintro ⟨hstart, name, hname, word, hspells, hwhole⟩
    obtain ⟨hfull, hsmall⟩ := hnames name hname
    have hne : word ≠ [] := by
      rintro rfl
      exact hfull (String.toList_eq_nil_iff.mp (List.forall₂_nil_left_iff.mp hspells))
    have hbracketed := bracketed?_of_isBracketed hstart hne (hspells.all_isWord hsmall) hwhole
    have hlower : String.ofList (lower word) = name := by
      rw [(lower_eq_iff hsmall word).mpr hspells, String.ofList_toList]
    simp [opening?, hbracketed, hlower, hname]

/-! ## What is found -/

def settingFinding (call : Statement) (whole : String) : Finding :=
  found .notEnoughWhitespaceAfterSetting [.string whole] (anchor call.line)
    (call.dataTokens.head?.elim 0 (·.column) + 1)

def settingEntry (call : Statement) (whole : String) : String × String × Int × Int :=
  ("0402", "Provide at least two spaces after '" ++ whole ++ "' setting", anchor call.line,
    call.dataTokens.head?.elim 0 (·.column) + 1)

theorem fills_settingFinding (call : Statement) (whole : String) :
    (settingFinding call whole).Fills ∧
      (settingFinding call whole).entry = settingEntry call whole := by
  have hfilled : (settingFinding call whole).Fills ∧ (settingFinding call whole).message =
      "Provide at least two spaces after '" ++ (whole ++ "' setting") :=
    Finding.fills_of_wording (.plain rfl rfl (.text (.last rfl rfl))) rfl rfl
  refine ⟨hfilled.1, ?_⟩
  rw [Finding.entry, hfilled.2, settingEntry, String.append_assoc]
  rfl

theorem exists_dataTokens {call : Statement} (h : call.keyword?.isSome = true) :
    ∃ t ts, call.dataTokens = t :: ts := by
  obtain ⟨name, hname⟩ := Option.isSome_iff_exists.mp h
  obtain ⟨t, ht, -⟩ := Option.map_eq_some_iff.mp hname
  have hkind : t.kind = .keyword := by simpa using List.find?_some ht
  have hdata : t ∈ call.dataTokens :=
    List.mem_filter.mpr ⟨List.mem_of_find?_eq_some ht, by rw [hkind]; rfl⟩
  exact List.exists_cons_of_ne_nil (List.ne_nil_of_mem hdata)

theorem inSetting_eq (call : Statement) :
    inSetting call = .ok ((opening? settingNames call).toList.map (settingFinding call)) := by
  unfold inSetting opening?
  cases hbracketed : bracketed? (call.keyword?.getD "").toList with
  | none => rfl
  | some parts =>
    obtain ⟨whole, word⟩ := parts
    simp only
    split
    · have hkeyword : call.keyword?.isSome = true := by
        cases hname : call.keyword? with
        | some name => rfl
        | none =>
          rw [hname] at hbracketed
          cases hbracketed
      obtain ⟨t, ts, hdata⟩ := exists_dataTokens hkeyword
      have hfinding : settingFinding call (String.ofList whole) =
          found .notEnoughWhitespaceAfterSetting [.string (String.ofList whole)] (anchor call.line)
            (t.column + 1) := by
        rw [settingFinding, hdata]
        rfl
      simp only [firstData, hdata, Option.toList_some, List.map_cons, hfinding]
      rfl
    · rfl

private theorem checkSettings_eq (d : Document) :
    checkSettings d = .ok ((d.statementsOf .keywordCall).flatMap fun call =>
      (opening? settingNames call).toList.map (settingFinding call)) :=
  gather_eq_ok fun call _ => inSetting_eq call

theorem entries_found (names : List String) (calls : List Statement) :
    (calls.flatMap fun call => (opening? names call).toList.map (settingFinding call)).map Finding.entry =
      calls.flatMap fun call => (opening? names call).toList.map (settingEntry call) := by
  rw [List.map_flatMap]
  apply List.flatMap_congr
  intro call _
  rw [List.map_map]
  exact List.map_congr_left fun whole _ => (fills_settingFinding call whole).2

private theorem areWords_listedSettings : AreWords listedSettings := by
  rw [listedSettings_eq, AreWords]
  decide

theorem opening?_congr {names others : List String} (h : ∀ name, name ∈ names ↔ name ∈ others)
    (call : Statement) : opening? names call = opening? others call := by
  unfold opening?
  split
  · next whole word _ =>
    have hsame : names.contains (String.ofList (lower word)) =
        others.contains (String.ofList (lower word)) := by
      rw [Bool.eq_iff_iff, List.contains_iff_mem, List.contains_iff_mem]
      exact h _
    rw [hsame]
  · rfl

theorem opening?_filter_ne {names : List String} {other : String} (hother : other ∈ names)
    (call : Statement) {β : Type} (f : String → β) :
    ((opening? (names.filter (· ≠ other)) call).toList.map f).Sublist
        ((opening? names call).toList.map f) ∧
      ((opening? (names.filter (· ≠ other)) call).toList.map f = (opening? names call).toList.map f ↔
        opening? [other] call = none) := by
  unfold opening?
  cases bracketed? (call.keyword?.getD "").toList with
  | none => simp
  | some parts =>
    obtain ⟨whole, word⟩ := parts
    by_cases hname : String.ofList (lower word) = other
    · simp [hname, hother]
    · by_cases hlisted : String.ofList (lower word) ∈ names <;> simp [hname, hlisted]

end Check.KeywordCall

namespace Options

open Check.KeywordCall

/-- Where not-enough-whitespace-after-setting (0402) is on, the calls that start with a listed setting in
brackets, as `[Tags]`, are reported with the text in brackets, but for those that start with `[Return]`. -/
theorem bracketed_settings_iff (o : Options) {host : Host} {notes : List String} {s : Setup}
    (h : o.setup host = (notes, .ok s)) (hon : s.linter.registry.enables "0402" = true)
    (memory : Memory) (subject : Subject) :
    ∃ issues : List Issue,
      (s.linter.withMemory memory).scan .twoSpacesAfterSettings subject = .ok issues ∧
      (∀ names ⊆ listedSettings, ∀ (call : Statement) (whole : String),
        opening? names call = some whole ↔ Opens names (call.keyword?.getD "") whole) ∧
      (Issue.among [.notEnoughWhitespaceAfterSetting] issues).map Issue.entry =
        (subject.document.statementsOf .keywordCall).flatMap (fun call =>
          (opening? (listedSettings.filter (· ≠ "return")) call).toList.map (settingEntry call)) ∧
      ((Issue.among [.notEnoughWhitespaceAfterSetting] issues).map Issue.entry =
          (subject.document.statementsOf .keywordCall).flatMap
            (fun call => (opening? listedSettings call).toList.map (settingEntry call)) ↔
        ∀ call ∈ subject.document.statementsOf .keywordCall, ∀ whole,
          ¬ Opens ["return"] (call.keyword?.getD "") whole) := by
  have hkey : RuleKey.notEnoughWhitespaceAfterSetting ∈ Checker.twoSpacesAfterSettings.keys := by decide
  have hnames : ∀ name, name ∈ settingNames ↔ name ∈ listedSettings.filter (· ≠ "return") := by
    have hsubset : settingNames ⊆ listedSettings.filter (· ≠ "return") ∧
        listedSettings.filter (· ≠ "return") ⊆ settingNames := by
      rw [listedSettings_eq]
      decide
    exact fun name => ⟨@hsubset.1 name, @hsubset.2 name⟩
  have hreturn : "return" ∈ listedSettings := by
    rw [listedSettings_eq]
    decide
  have hopening : ∀ names ⊆ listedSettings, ∀ (call : Statement) (whole : String),
      opening? names call = some whole ↔ Opens names (call.keyword?.getD "") whole :=
    fun names hsubset call whole =>
      opening?_eq_some_iff fun name hname => areWords_listedSettings name (hsubset hname)
  have hfound := checkSettings_eq subject.document
  simp only [opening?_congr hnames] at hfound
  have hfills : ∀ f ∈ (subject.document.statementsOf .keywordCall).flatMap (fun call =>
      (opening? (listedSettings.filter (· ≠ "return")) call).toList.map (settingFinding call)),
        f.rule = .notEnoughWhitespaceAfterSetting ∧ f.Fills := by
    intro f hf
    obtain ⟨call, -, hf⟩ := List.mem_flatMap.mp hf
    obtain ⟨whole, -, rfl⟩ := List.mem_map.mp hf
    exact ⟨rfl, (fills_settingFinding call whole).1⟩
  obtain ⟨issues, hissues, hentries⟩ := o.scan_only h memory hkey hon hfound
    fun f hf => ⟨(hfills f hf).1 ▸ hkey, (hfills f hf).2⟩
  have hreported := hentries.trans (congrArg (List.map Finding.entry)
    (List.filter_eq_self.mpr fun f hf => decide_eq_true (hfills f hf).1))
  rw [entries_found] at hreported
  refine ⟨issues, hissues, hopening, hreported, ?_⟩
  rw [hreported, flatMap_eq_iff_of_sublist fun call _ => (opening?_filter_ne hreturn call _).1]
  apply forall₂_congr
  intro call _
  rw [(opening?_filter_ne hreturn call _).2, Option.eq_none_iff_forall_ne_some]
  exact forall_congr' fun whole =>
    not_congr (hopening ["return"] (List.cons_subset.mpr ⟨hreturn, List.nil_subset _⟩) call whole)

theorem bracketed_settings_iff_tagged :
    ∃ (s : Setup) (issues : List Issue), standard.setup .plain = ([], .ok s) ∧
      s.linter.registry.enables "0402" = true ∧
      s.linter.scan .twoSpacesAfterSettings
        (.defining (.definition "Kw" [("[ tagS] smoke", []), ("[Log]", [])])) = .ok issues ∧
      (Issue.among [.notEnoughWhitespaceAfterSetting] issues).map Issue.entry =
        [("0402", "Provide at least two spaces after '[ tagS]' setting", 3, 5)] := by
  have hsetup := setup_standard .plain
  have hon := enables_standard hsetup .notEnoughWhitespaceAfterSetting
  obtain ⟨issues, hissues, -, hreported, -⟩ := bracketed_settings_iff standard hsetup hon .blank
    (.defining (.definition "Kw" [("[ tagS] smoke", []), ("[Log]", [])]))
  refine ⟨_, issues, hsetup, hon, hissues, hreported.trans ?_⟩
  rw [listedSettings_eq]
  decide

/-- The name of `[Return]` is listed, but a call that starts with it is passed over. -/
theorem bracketed_return_passed_over :
    ∃ s : Setup, standard.setup .plain = ([], .ok s) ∧ s.linter.registry.enables "0402" = true ∧
      s.linter.scan .twoSpacesAfterSettings
        (.defining (.definition "Kw" [("[Return] $\x7bx\x7d", [])])) = .ok [] ∧
      Opens listedSettings "[Return] $\x7bx\x7d" "[Return]" := by
  have hsetup := setup_standard .plain
  have hopens : IsBracketed "Return".toList "[Return]".toList := ⟨[], [], by decide, by decide, rfl⟩
  refine ⟨_, hsetup, enables_standard hsetup .notEnoughWhitespaceAfterSetting, ?_, by decide,
    "return", ?_, _, by decide, hopens⟩
  · rw [Linter.scan_tuned]
    rfl
  · rw [listedSettings_eq]
    decide

end Options

end SuiteLint
