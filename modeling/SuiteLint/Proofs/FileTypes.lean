import SuiteLint.Proofs.FileGathering
import SuiteLint.Proofs.ListedRules
import SuiteLint.Proofs.TableOptions
import SuiteLint.Proofs.VariableForms
import SuiteLint.Run

/-!
# The types of files in any case

Files are taken by the endings of their names, which are put in small letters first. The types of
`--filetypes` stay in their case, so one that is given with a capital is lost unless it is also given in small
letters.
-/

namespace SuiteLint

/-! ## Small letters stay -/

namespace Text

def CodeRun.members (r : CodeRun) : List Nat :=
  List.range' r.first ((r.last - r.first) / r.step + 1) r.step

theorem CodeRun.exists_of_has {r : CodeRun} {n : Nat} (h : r.has n = true) :
    ∃ i < (r.last - r.first) / r.step + 1, n - r.first = r.step * i ∧ n = r.first + r.step * i := by
  simp only [has, Bool.and_eq_true, decide_eq_true_eq, beq_iff_eq] at h
  obtain ⟨⟨hfirst, hlast⟩, hstep⟩ := h
  have hdiv : r.step * ((n - r.first) / r.step) = n - r.first := by
    have := Nat.div_add_mod (n - r.first) r.step
    omega
  have hcount : (n - r.first) / r.step ≤ (r.last - r.first) / r.step :=
    Nat.div_le_div_right (by omega)
  exact ⟨(n - r.first) / r.step, by omega, hdiv.symm, by omega⟩

private theorem CodeRun.mem_members {r : CodeRun} {n : Nat} (h : r.has n = true) : n ∈ r.members := by
  obtain ⟨i, hi, -, hn⟩ := exists_of_has h
  exact List.mem_range'.mpr ⟨i, hi, hn⟩

def CaseRun.images (r : CaseRun) : List Nat :=
  List.range' r.image ((r.run.last - r.run.first) / r.run.step + 1) r.run.step

private theorem CaseRun.mem_images {r : CaseRun} {n : Nat} (h : r.run.has n = true) :
    r.image + (n - r.run.first) ∈ r.images := by
  obtain ⟨i, hi, hdistance, -⟩ := CodeRun.exists_of_has h
  exact List.mem_range'.mpr ⟨i, hi, by rw [hdistance]⟩

def codeSet (codes : List Nat) : Nat := codes.foldr (fun n set => 1 <<< n ||| set) 0

theorem testBit_codeSet (codes : List Nat) (n : Nat) :
    (codeSet codes).testBit n = true ↔ n ∈ codes := by
  induction codes with
  | nil => simp [codeSet]
  | cons m codes ih =>
    change (1 <<< m ||| codeSet codes).testBit n = true ↔ _
    rw [Nat.testBit_or, Bool.or_eq_true, ih, Nat.one_shiftLeft, Nat.testBit_two_pow, decide_eq_true_iff,
      List.mem_cons, eq_comm]

theorem images_apart {n : Nat} (h : n ∈ toLowerRuns.flatMap (·.images)) :
    n ≠ 304 ∧ toLowerRuns.find? (·.run.has n) = none := by
  have hapart : codeSet (304 :: toLowerRuns.flatMap (·.run.members)) &&&
      codeSet (toLowerRuns.flatMap (·.images)) = 0 := by decide +kernel
  have hmoved : n ∉ 304 :: toLowerRuns.flatMap (·.run.members) := by
    intro hmem
    have hboth : (codeSet (304 :: toLowerRuns.flatMap (·.run.members)) &&&
        codeSet (toLowerRuns.flatMap (·.images))).testBit n = true := by
      rw [Nat.testBit_and, Bool.and_eq_true, testBit_codeSet, testBit_codeSet]
      exact ⟨hmem, h⟩
    rw [hapart, Nat.zero_testBit] at hboth
    cases hboth
  rw [List.mem_cons, not_or] at hmoved
  refine ⟨hmoved.1, List.find?_eq_none.mpr fun r hr hhas => hmoved.2 ?_⟩
  exact List.mem_flatMap.mpr ⟨r, hr, CodeRun.mem_members hhas⟩

theorem le_of_image {n : Nat} (h : n ∈ toLowerRuns.flatMap (·.images)) : 128 ≤ n ∨ n = 107 := by
  have hruns : ∀ r ∈ toLowerRuns, 128 ≤ r.image ∨ r.images = [107] := by decide +kernel
  obtain ⟨r, hr, hn⟩ := List.mem_flatMap.mp h
  rcases hruns r hr with himage | himages
  · obtain ⟨i, -, hcode⟩ := List.mem_range'.mp hn
    exact Or.inl (by omega)
  · rw [himages] at hn
    exact Or.inr (List.mem_singleton.mp hn)

theorem lowerChar_of_image {n : Nat} (h : n ∈ toLowerRuns.flatMap (·.images)) :
    lowerChar (Char.ofNat n) = [Char.ofNat n] := by
  obtain ⟨hdotted, hfind⟩ := images_apart h
  rcases toNat_ofNat n with hcode | hcode
  · rcases le_of_image h with hfar | rfl
    · rw [lowerChar, hcode, if_neg (Nat.not_lt.mpr hfar), if_neg hdotted, moved, hcode, hfind]
    · decide
  · have hzero : Char.ofNat n = Char.ofNat 0 := by rw [← Char.ofNat_toNat (Char.ofNat n), hcode]
    rw [hzero]
    decide

theorem lowerChar_of_mem {c d : Char} (h : d ∈ lowerChar c) : lowerChar d = [d] := by
  have hascii : ∀ n < 128, lowerChar (Char.ofNat n).toLower = [(Char.ofNat n).toLower] := by
    decide
  have hcase : lowerChar c = if c.toNat < 128 then [c.toLower]
    else if c.toNat = 304 then ['i', Char.ofNat 775] else [moved toLowerRuns c] := rfl
  rw [hcase] at h
  split at h
  · next hsmall =>
    have hlower := hascii c.toNat hsmall
    rw [Char.ofNat_toNat] at hlower
    rw [List.mem_singleton.mp h, hlower]
  · next hfar =>
    split at h
    · have hboth : ∀ d ∈ ['i', Char.ofNat 775], lowerChar d = [d] :=
        List.forall_mem_cons.mpr ⟨by decide, List.forall_mem_singleton.mpr (by decide)⟩
      exact hboth d h
    · next hplain =>
      rw [if_neg hfar, if_neg hplain] at hcase
      unfold moved at h hcase
      split at h
      · next r hr =>
        have hhas := List.find?_some hr
        rw [List.mem_singleton.mp h]
        exact lowerChar_of_image
          (List.mem_flatMap.mpr ⟨r, List.mem_of_find?_eq_some hr, CaseRun.mem_images hhas⟩)
      · next hnone =>
        rw [List.mem_singleton.mp h, hcase, hnone]

theorem lowerChar_of_mem_lowerAfter {before s : List Char} {d : Char} (h : d ∈ lowerAfter before s) :
    lowerChar d = [d] := by
  have hsigmas : lowerChar 'ς' = ['ς'] ∧ lowerChar 'σ' = ['σ'] := by decide
  induction s generalizing before with
  | nil => cases h
  | cons c s ih =>
    rcases List.mem_append.mp h with hc | hs
    · split at hc
      · rw [List.mem_singleton.mp hc]
        split
        · exact hsigmas.1
        · exact hsigmas.2
      · exact lowerChar_of_mem hc
    · exact ih hs

theorem lowerAfter_of_small {before s : List Char} (h : ∀ c ∈ s, lowerChar c = [c]) :
    lowerAfter before s = s := by
  have hsigma : lowerChar 'Σ' ≠ ['Σ'] := by decide
  induction s generalizing before with
  | nil => rfl
  | cons c s ih =>
    rw [List.forall_mem_cons] at h
    have hc : c ≠ 'Σ' := by
      rintro rfl
      exact hsigma h.1
    rw [lowerAfter, if_neg hc, h.1, ih h.2]
    rfl

private theorem lower_lower (s : List Char) : lower (lower s) = lower s :=
  lowerAfter_of_small fun _ h => lowerChar_of_mem_lowerAfter h

end Text

/-! ## The types that are read -/

namespace Command

theorem classify_joined (f : Flag) (value : String) :
    classify (f.long ++ "=" ++ value) = .ok (.flagged ⟨f, f.long, some value.toList⟩) := by
  have hlong : ∀ f ∈ Flag.all, f.long.toList.head? = some '-' ∧ '=' ∉ f.long.toList := by decide +kernel
  obtain ⟨hdash, hplain⟩ := hlong f f.mem_all
  have hword : (f.long ++ "=" ++ value).toList = f.long.toList ++ '=' :: value.toList := by simp
  have hcut := Text.cutAt_eq_some_iff.mpr ⟨hword, hplain⟩
  -- No spelling of a flag holds an equals sign.
  have hspelling : Flag.ofSpelling? (f.long ++ "=" ++ value) = none := by
    have htable : ∀ entry ∈ Flag.table, '=' ∉ entry.1.toList := by decide +kernel
    rw [Flag.ofSpelling?, List.lookup_eq_none_iff]
    intro entry hentry
    rw [bne_iff_ne]
    intro heq
    exact htable entry hentry (by rw [← heq, hword]; simp)
  have hhead : ¬ (f.long ++ "=" ++ value).toList.head? ≠ some '-' := by
    rw [hword, List.head?_append, hdash]
    simp
  have hlength : (f.long ++ "=" ++ value).toList.length ≠ 1 := by
    rw [hword]
    cases hlist : f.long.toList <;> simp_all
  simp only [classify, if_neg hhead, hspelling, if_neg hlength, signed?, hcut, String.ofList_toList,
    f.ofSpelling?_long, Option.map_some]

theorem read_joined (s : Session) (o : Options) {f : Flag} {value : String} (h : f.arity ≠ .none)
    (hsetting : (⟨f, some value⟩ : Act).IsSetting) :
    read s o [f.long ++ "=" ++ value] =
      (s, .ok { o.setAll [⟨f, some value⟩] with paths := Options.standard.paths }) := by
  have hlong : ∀ f ∈ Flag.all, ['-', '-'].isPrefixOf f.long.toList = true := by decide +kernel
  have hword : f.long ++ "=" ++ value ≠ "--" := by
    intro heq
    have hmem : '=' ∈ "--".toList := by rw [← heq]; simp
    exact absurd hmem (by decide)
  have hresolve : Mark.resolve ⟨f, f.long, some value.toList⟩ none = .ok ⟨[⟨f, some value⟩], false⟩ := by
    simp only [Mark.resolve, hlong f f.mem_all, if_true, give, if_neg h, String.ofList_toList]
  have hparse : parse .before [.flagged ⟨f, f.long, some value.toList⟩] =
      ⟨[⟨f, some value⟩], [], [], none⟩ := by
    simp only [parse, hresolve]
    rfl
  have hclassify : classifyAll [f.long ++ "=" ++ value] = .ok [.flagged ⟨f, f.long, some value.toList⟩] :=
    classifyAll_cons hword (classify_joined f value) rfl
  simp only [read, hclassify, hparse, perform_settings s o (List.forall_mem_singleton.mpr hsetting)]
  rfl

end Command

namespace Options

@[simp] theorem mem_addAll {texts new : List String} {t : String} :
    t ∈ addAll texts new ↔ t ∈ texts ∨ t ∈ new := by
  unfold addAll
  induction new generalizing texts with
  | nil => simp
  | cons text new ih => rw [List.foldl_cons, ih, Text.mem_insertText, List.mem_cons, or_assoc]

def commaList (given : List String) : String := String.ofList (Text.join [','] (given.map String.toList))

theorem parts_commaList {given : List String} (hne : given ≠ []) (h : ∀ ending ∈ given, ',' ∉ ending.toList) :
    parts (commaList given) = given := by
  have hpieces : ∀ piece ∈ given.map String.toList, ',' ∉ piece := List.forall_mem_map.mpr h
  rw [parts, commaList, String.toList_ofList, Text.splitAt_join (by simpa using hne) hpieces, List.map_map]
  simp [Function.comp_def]

def typesWith (given : List String) : List String := standard.fileTypes ++ given.map fileType

private theorem mem_typesWith {given : List String} {t : String} :
    t ∈ typesWith given ↔ t ∈ addAll standard.fileTypes (given.map fileType) := by
  rw [typesWith, List.mem_append, mem_addAll]

/-- The value may be a word of its own, or stand behind an equals sign, where it may start with a dash. -/
theorem load_fileTypes (s : Session) (value : String) :
    ∃ o : Options, (Request.ofWords ["--filetypes=" ++ value]).load s = (s, .ok o) ∧
      (Command.IsValue value → (Request.ofWords ["--filetypes", value]).load s = (s, .ok o)) ∧
      o.wanted.types = addAll standard.fileTypes ((parts value).map fileType) := by
  have houtput : Flag.fileTypes ≠ .output := by decide
  have hsetting : (⟨.fileTypes, some value⟩ : Command.Act).IsSetting := ⟨rfl, houtput⟩
  have hreserved : ∀ word ∈ Command.reserved, word ≠ "--filetypes" ∧ ¬ Command.IsValue word ∧
      '=' ∉ word.toList := by decide
  have hjoined := Command.read_joined s standard (show Flag.fileTypes.arity ≠ .none by decide) hsetting
  refine ⟨_, Request.load_of_read hjoined (List.cons_ne_nil _ _) (fun word hword hmem => ?_) rfl,
    fun h => ?_, rfl⟩
  · apply (hreserved word hword).2.2
    rw [List.mem_singleton.mp hmem]
    simp
  · have hact : ∀ a ∈ [(⟨.fileTypes, some value⟩ : Command.Act)], a.Fits ∧ a.IsSetting :=
      List.forall_mem_singleton.mpr ⟨Or.inr ⟨value, rfl, rfl, h⟩, hsetting⟩
    have hread := Command.read_written s standard hact (List.forall_mem_nil _)
    refine Request.load_of_read hread (List.cons_ne_nil _ _) (fun word hword hmem => ?_) rfl
    obtain ⟨hflag, hdashed, -⟩ := hreserved word hword
    rcases List.mem_cons.mp hmem with heq | hmem
    · exact hflag heq
    · exact h.ne_dashes hdashed (List.mem_singleton.mp hmem).symm

theorem takeTable_fileTypes (s : Session) (given : List String) :
    ∃ o : Options,
      s.takeTable standard [("filetypes", .list (given.map .text))] = (s, .ok (o, true)) ∧
        o.wanted.types = addAll standard.fileTypes (given.map fileType) := by
  have hawaits : TableSetting.Awaits standard [.list .fileTypes given] :=
    ⟨List.nodup_singleton _, fun _ _ => rfl⟩
  refine ⟨TableSetting.enterAll standard [.list .fileTypes given], ?_, rfl⟩
  change s.takeTable standard
    ([TableSetting.list .fileTypes given].map fun e => (e.key, e.value)) = _
  rw [Session.takeTable, TableSetting.plainKeys_eq hawaits.distinct, TableSetting.takeSettings_eq s hawaits]
  rfl

end Options

/-! ## The files that are taken -/

namespace Path

def IsOfType (p : Path) (given : List String) : Prop :=
  ∃ t ∈ Options.typesWith given, Text.lower t.toList = Text.lower p.suffix.toList

/-- The ending of a path is a given type in another case, and no type is that ending in small letters. -/
def IsLost (p : Path) (given : List String) : Prop :=
  (∃ ending ∈ given, Text.lower (Options.fileType ending).toList = Text.lower p.suffix.toList) ∧
    String.ofList (Text.lower p.suffix.toList) ∉ Options.typesWith given

private theorem IsLost.isOfType {p : Path} {given : List String} (h : p.IsLost given) : p.IsOfType given := by
  obtain ⟨⟨ending, hending, hsame⟩, -⟩ := h
  exact ⟨_, List.mem_append_right _ (List.mem_map_of_mem hending), hsame⟩

theorem hasType_iff_isOfType {p : Path} (hsuffix : p.suffix ≠ "") {types given : List String}
    (h : ∀ t, t ∈ types ↔ t ∈ Options.typesWith given) :
    p.hasType types = true ↔ p.IsOfType given ∧ ¬ p.IsLost given := by
  rw [p.hasType_iff, h]
  constructor
  · rintro ⟨-, hmem⟩
    refine ⟨⟨_, hmem, ?_⟩, fun hlost => hlost.2 hmem⟩
    rw [String.toList_ofList, Text.lower_lower]
  · rintro ⟨⟨t, ht, hsame⟩, hkept⟩
    refine ⟨hsuffix, ?_⟩
    by_contra hnone
    rcases List.mem_append.mp ht with hstandard | hgiven
    · have hsmall : ∀ t ∈ Options.standard.fileTypes, String.ofList (Text.lower t.toList) = t := by
        decide
      rw [← hsame, hsmall t hstandard] at hnone
      exact hnone ht
    · obtain ⟨ending, hending, rfl⟩ := List.mem_map.mp hgiven
      exact hkept ⟨⟨ending, hending, hsame⟩, hnone⟩

end Path

namespace Options

/-- Of the paths with an ending, those are taken that have a standard or given type in any case and are not
lost. -/
def Takes (o : Options) (given : List String) : Prop :=
  ∀ p : Path, p.suffix ≠ "" →
    (p.hasType o.wanted.types = true ↔ p.IsOfType given ∧ ¬ p.IsLost given) ∧
    ((p.hasType o.wanted.types = true ↔ p.IsOfType given) ↔ ¬ p.IsLost given)

theorem takes_of_types {o : Options} {given : List String}
    (h : o.wanted.types = addAll standard.fileTypes (given.map fileType)) : o.Takes given := by
  intro p hsuffix
  have htypes : ∀ t, t ∈ o.wanted.types ↔ t ∈ typesWith given := fun t => by rw [h, mem_typesWith]
  have htaken := Path.hasType_iff_isOfType hsuffix htypes
  refine ⟨htaken, ?_⟩
  rw [htaken]
  exact ⟨fun hall hlost => (hall.mpr hlost.isOfType).2 hlost, fun hkept => and_iff_left hkept⟩

/-- Behind `--filetypes` on a command line, with commas between them, and as `filetypes` in `pyproject.toml`,
types can be given to be taken next to the standard ones. A path with an ending is then taken exactly if its
ending is one of these types in any case and is not lost for want of the type in small letters. -/
theorem file_types_taken_iff (s : Session) :
    (∀ given : List String, given ≠ [] → (∀ ending ∈ given, ',' ∉ ending.toList) →
      ∃ o : Options, (Request.ofWords ["--filetypes=" ++ commaList given]).load s = (s, .ok o) ∧
        (Command.IsValue (commaList given) →
          (Request.ofWords ["--filetypes", commaList given]).load s = (s, .ok o)) ∧
        o.Takes given) ∧
      ∀ given : List String, ∃ o : Options,
        s.takeTable standard [("filetypes", .list (given.map .text))] = (s, .ok (o, true)) ∧
          o.Takes given := by
  constructor
  · intro given hne hcommas
    obtain ⟨o, hjoined, hload, htypes⟩ := load_fileTypes s (commaList given)
    rw [parts_commaList hne hcommas] at htypes
    exact ⟨o, hjoined, hload, takes_of_types htypes⟩
  · intro given
    obtain ⟨o, htable, htypes⟩ := takeTable_fileTypes s given
    exact ⟨o, htable, takes_of_types htypes⟩

theorem file_types_taken_iff_capitals :
    ∃ o : Options, (Request.ofWords ["--filetypes", "TXT,.md"]).load .bare = (.bare, .ok o) ∧
      ((Path.ofString "a.MD").hasType o.wanted.types = true ↔
        (Path.ofString "a.MD").IsOfType ["TXT", ".md"]) := by
  obtain ⟨o, -, hload, htakes⟩ := (file_types_taken_iff .bare).1 ["TXT", ".md"] (List.cons_ne_nil _ _)
    (by decide)
  have hsmall : String.ofList (Text.lower (Path.ofString "a.MD").suffix.toList) ∈
      typesWith ["TXT", ".md"] := by decide
  have hvalue : commaList ["TXT", ".md"] = "TXT,.md" := by decide
  rw [hvalue] at hload
  exact ⟨o, hload (by decide), (htakes _ (by decide)).2.mpr fun hlost => hlost.2 hsmall⟩

/-- A file is passed over whose type is given in capitals. -/
theorem capital_type_lost :
    ∃ o : Options, (Request.ofWords ["--filetypes", "TXT"]).load .bare = (.bare, .ok o) ∧
      (Path.ofString "a.txt").hasType o.wanted.types = false ∧
      (Path.ofString "a.txt").IsOfType ["TXT"] := by
  obtain ⟨o, -, hload, htypes⟩ := load_fileTypes .bare "TXT"
  refine ⟨o, hload (by decide), ?_, ".TXT", ?_, ?_⟩
  · rw [htypes]
    decide
  · decide
  · decide

end Options

end SuiteLint
