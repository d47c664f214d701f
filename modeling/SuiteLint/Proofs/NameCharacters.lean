import SuiteLint.Proofs.NameParts
import SuiteLint.Proofs.RepeatedNames

/-!
# Characters of names that are judged

The places that are found for the variables of a name are in order and apart, each from where a variable
opens to the brace that closes it. In the name of a keyword all characters outside of these places are
judged, each once and from the left; in the name of a test case all are.
-/

namespace SuiteLint

namespace Name

/-! ## What is found -/

/-- A stretch of a name that is a variable: it lies in the name, a variable opens at its start, a closing
brace is its end, and its braces are balanced, but not those of a shorter one with the opening brace. -/
structure IsSpan (name : List Char) (v : Nat × Nat) : Prop where
  within : v.1 + 2 < v.2 ∧ v.2 ≤ name.length
  opens : Opens name v.1
  closes : name[v.2 - 1]? = some '}'
  balanced : (name.extract v.1 v.2).count '{' = (name.extract v.1 v.2).count '}'
  unbalanced : ∀ stop, v.1 + 2 ≤ stop → stop < v.2 →
    (name.extract v.1 stop).count '}' < (name.extract v.1 stop).count '{'

def NeverCloses (name : List Char) (i : Nat) : Prop :=
  ∀ stop, i + 2 ≤ stop → stop ≤ name.length →
    (name.extract i stop).count '}' < (name.extract i stop).count '{'

/-- The braces of a stretch from a place where a variable opens. -/
theorem count_extract {sign : Char} (hsign : isVariableSign sign = true) (front rest : List Char)
    {stop : Nat} (hstop : front.length + 2 ≤ stop) :
    ((front ++ sign :: '{' :: rest).extract front.length stop).count '{' =
        (rest.take (stop - front.length - 2)).count '{' + 1 ∧
      ((front ++ sign :: '{' :: rest).extract front.length stop).count '}' =
        (rest.take (stop - front.length - 2)).count '}' := by
  have hbrace : sign ≠ '{' ∧ sign ≠ '}' := by
    simp only [isVariableSign, Bool.or_eq_true, beq_iff_eq] at hsign
    rcases hsign with ((rfl | rfl) | rfl) | rfl <;> decide
  obtain ⟨n, rfl⟩ := Nat.exists_eq_add_of_le hstop
  have hextract : (front ++ sign :: '{' :: rest).extract front.length (front.length + 2 + n) =
      sign :: '{' :: rest.take n := by
    rw [List.extract_eq_take_drop, List.drop_left, Nat.add_assoc, Nat.add_sub_cancel_left,
      Nat.add_comm 2]
    rfl
  have hrest : front.length + 2 + n - front.length - 2 = n := by omega
  rw [hextract, hrest]
  simp [hbrace.1, hbrace.2]

namespace Reads

variable {name : List Char} {parts : List Part} (h : Reads false name parts)
include h

theorem isSpan {v : Nat × Nat} (hv : v ∈ findVariables name) : IsSpan name v := by
  rw [h.findVariables_eq, mem_spansFrom_iff] at hv
  obtain ⟨before, part, after, hsplit, hclosed, hstart, hstop⟩ := hv
  rw [Nat.zero_add] at hstart
  cases part with
  | plain c => cases hclosed
  | unclosed sign rest => cases hclosed
  | closed sign base =>
    obtain ⟨hsign, hbase⟩ := h.closed_of_split hsplit
    have hopens : Opens name v.1 :=
      hstart ▸ (h.opens_iff_not_plain hsplit).mpr fun c => Part.noConfusion
    have hlength : v.2 = v.1 + base.length + 3 := by
      rw [hstop]
      simp only [Part.source, List.length_cons, List.length_append, List.length_nil]
      omega
    have hname : name = source before ++ sign :: '{' :: (base ++ '}' :: source after) := by
      rw [← h.source_eq, hsplit]
      simp [Part.source]
    obtain ⟨hopen, hcount⟩ := (closes_iff 0 base).mp hbase
    have hbraces {stop : Nat} (hle : v.1 + 2 ≤ stop) := count_extract hsign (source before)
      (base ++ '}' :: source after) (hstart ▸ hle)
    rw [← hname, ← hstart] at hbraces
    refine ⟨⟨by omega, ?_⟩, hopens, ?_, ?_, ?_⟩
    · rw [hname, hlength, hstart]
      simp only [List.length_append, List.length_cons]
      omega
    · have hlast : v.2 - 1 = (source before ++ sign :: '{' :: base).length := by
        rw [hlength, hstart]
        simp only [List.length_append, List.length_cons]
        omega
      have hname' : name = (source before ++ sign :: '{' :: base) ++ '}' :: source after := by
        rw [hname]
        simp
      rw [hlast, hname', List.getElem?_append_right (Nat.le_refl _), Nat.sub_self]
      rfl
    · have hall : (base ++ '}' :: source after).take (v.2 - v.1 - 2) = base ++ ['}'] := by
        have hwidth : v.2 - v.1 - 2 = base.length + 1 := by omega
        rw [hwidth, List.take_length_add_append]
        rfl
      have hle : v.1 + 2 ≤ v.2 := by omega
      obtain ⟨hleft, hright⟩ := hbraces hle
      rw [hleft, hright, hall, List.count_append, List.count_append, hcount]
      simp
    · intro stop hle hlt
      have hfront : (base ++ '}' :: source after).take (stop - v.1 - 2) = base.take (stop - v.1 - 2) :=
        List.take_append_of_le_length (by omega)
      obtain ⟨hleft, hright⟩ := hbraces hle
      have hprefix := hopen _ (List.take_prefix (stop - v.1 - 2) base)
      rw [hleft, hright, hfront]
      omega

theorem neverCloses {before after : List Part} {sign : Char} {rest : List Char}
    (hsplit : parts = before ++ .unclosed sign rest :: after) :
    NeverCloses name (source before).length := by
  obtain ⟨hsign, hrest, rfl⟩ := h.unclosed_of_split hsplit
  intro stop hle _
  have hname : name = source before ++ sign :: '{' :: rest := by
    rw [← h.source_eq, hsplit]
    simp [Part.source]
  obtain ⟨hleft, hright⟩ := count_extract hsign (source before) rest hle
  have hprefix := hrest _ (List.take_prefix (stop - (source before).length - 2) rest)
  rw [hname, hleft, hright]
  omega

/-- What opens and is not found stands at or behind a variable that is never closed. -/
theorem exists_neverCloses {i : Nat} (hopens : Opens name i)
    (hout : isOutside (findVariables name) i = true) :
    ∃ j ≤ i, Opens name j ∧ isOutside (findVariables name) j = true ∧ NeverCloses name j := by
  have hlength : i < (source parts).length := by
    rw [h.source_eq]
    by_contra hlong
    have hnone := hopens.1
    rw [List.getElem?_eq_none (Nat.le_of_not_lt hlong)] at hnone
    cases hnone
  obtain ⟨before, part, after, hsplit, hstart, hstop⟩ := exists_part_at hlength
  cases part with
  | plain c =>
    obtain rfl : i = (source before).length := by
      simp only [Part.source, List.length_cons, List.length_nil] at hstop
      omega
    exact absurd rfl ((h.opens_iff_not_plain hsplit).mp hopens c)
  | closed sign base =>
    have hv : ((source before).length, (source before).length + (Part.closed sign base).source.length) ∈
        findVariables name := by
      rw [h.findVariables_eq, mem_spansFrom_iff]
      exact ⟨before, _, after, hsplit, rfl, (Nat.zero_add _).symm, rfl⟩
    have hplace := List.all_eq_true.mp hout _ hv
    simp only [Bool.or_eq_true, decide_eq_true_eq] at hplace
    omega
  | unclosed sign rest =>
    refine ⟨_, hstart, (h.opens_iff_not_plain hsplit).mpr fun c => Part.noConfusion, ?_,
      h.neverCloses hsplit⟩
    rw [isOutside, List.all_eq_true]
    intro v hv
    have hle := h.le_of_unclosed hsplit hv
    simp only [Bool.or_eq_true, decide_eq_true_eq]
    exact Or.inr hle

end Reads

end Name

namespace Check.Naming

open Name

/-! ## What is judged -/

/-- Where stretches are in order and apart, what is not in one of them is all that is outside. -/
theorem outsideFrom_eq {spans : List (Nat × Nat)} (hapart : spans.Pairwise fun u v => u.2 ≤ v.1)
    (index : Nat) (h : ∀ v ∈ spans, v.1 < v.2 ∧ index < v.2) (s : List Char) :
    outsideFrom index spans s =
      ((s.zipIdx index).filter fun entry => isOutside spans entry.2).map fun entry =>
        (entry.2, entry.1) := by
  induction s generalizing index spans with
  | nil => rfl
  | cons c s ih =>
    rw [List.zipIdx_cons, List.filter_cons]
    cases spans with
    | nil =>
      rw [outsideFrom, ih .nil _ (by simp)]
      rfl
    | cons span more =>
      obtain ⟨start, stop⟩ := span
      have hlater := (List.pairwise_cons.mp hapart).1
      have hspans := List.forall_mem_cons.mp h
      dsimp only at hlater hspans
      have hmore : ∀ v ∈ more, stop ≤ v.1 ∧ v.1 < v.2 :=
        fun v hv => ⟨hlater v hv, (hspans.2 v hv).1⟩
      have hgoes (hstop : index + 1 < stop) :
          ∀ v ∈ (start, stop) :: more, v.1 < v.2 ∧ index + 1 < v.2 := by
        refine List.forall_mem_cons.mpr ⟨⟨hspans.1.1, hstop⟩, fun v hv => ?_⟩
        have hplace := hmore v hv
        omega
      rw [outsideFrom]
      by_cases hbefore : index < start
      · have hout : isOutside ((start, stop) :: more) index = true := by
          simp only [isOutside, List.all_cons, Bool.and_eq_true, Bool.or_eq_true, decide_eq_true_eq,
            List.all_eq_true]
          refine ⟨Or.inl hbefore, fun v hv => Or.inl ?_⟩
          have hplace := hmore v hv
          omega
        rw [if_pos hbefore, ih hapart _ (hgoes (by omega)), if_pos hout, List.map_cons]
      · have hin : ¬ isOutside ((start, stop) :: more) index = true := by
          simp only [isOutside, List.all_cons, Bool.and_eq_true, Bool.or_eq_true, decide_eq_true_eq]
          omega
        rw [if_neg hbefore, if_neg hin]
        by_cases hend : index + 1 = stop
        · -- The stretch ends here, and all that follows lies behind it.
          have hbehind : ∀ v ∈ more, v.1 < v.2 ∧ index + 1 < v.2 := by
            intro v hv
            have hplace := hmore v hv
            omega
          rw [if_pos hend, ih (List.pairwise_cons.mp hapart).2 _ hbehind]
          congr 1
          apply List.filter_congr
          intro entry hentry
          have hplace := List.mem_zipIdx hentry
          have hpast : decide (stop ≤ entry.2) = true := decide_eq_true (by omega)
          simp [isOutside, hpast]
        · rw [if_neg hend, ih hapart _ (hgoes (by omega))]

def characterEntry (c : Char) (owner : String) (line col : Int) : String × String × Int × Int :=
  (RuleKey.notAllowedCharInName.id, "Not allowed character '" ++ c.toString ++ "' found in " ++ owner ++
    " name", line, col)

def characterEntries (p : Text.Pattern) (owner : String) (spans : List (Nat × Nat)) (s : Statement)
    (name : List Char) : List (String × String × Int × Int) :=
  (name.zipIdx.filter fun entry => isOutside spans entry.2 && p.foundIn [entry.1]).map fun entry =>
    characterEntry entry.1 owner (anchor s.line) (s.column + entry.2 + 1)

def nameEntries (p : Text.Pattern) (s : Statement) : List (String × String × Int × Int) :=
  let name := (s.name?.getD "").toList
  match s.kind with
  | .testCaseName => characterEntries p "test case" [] s name
  | .keywordName => characterEntries p "keyword" (findVariables name) s name
  | _ => []

def suiteEntries (p : Text.Pattern) (fileName : String) (d : Document) :
    List (String × String × Int × Int) :=
  ((suiteName (Definition.sourceOf d fileName)).toList.filter fun c => p.foundIn [c]).map fun c =>
    characterEntry c "suite" (anchor d.line) 1

def HasNames (d : Document) : Prop :=
  ∀ s ∈ d.statements, s.kind = .testCaseName ∨ s.kind = .keywordName → s.name?.isSome = true

instance (d : Document) : Decidable (HasNames d) := inferInstanceAs (Decidable (∀ s ∈ _, _))

theorem fills_found (c : Char) (owner : String) (line col : Int) :
    (found .notAllowedCharInName [.string c.toString, .string owner] line col).Fills ∧
      (found .notAllowedCharInName [.string c.toString, .string owner] line col).entry =
        characterEntry c owner line col := by
  have hwording : Text.Wording _ [.string c.toString, .string owner]
      ("Not allowed character '" ++ (c.toString ++ ("' found in " ++ (owner ++ " name")))) :=
    .plain rfl rfl (.text (.plain rfl rfl (.text (.last rfl rfl))))
  obtain ⟨hfills, hmessage⟩ := Finding.fills_of_wording
    (f := found .notAllowedCharInName [.string c.toString, .string owner] line col) hwording rfl rfl
  refine ⟨hfills, ?_⟩
  rw [Finding.entry, hmessage, characterEntry]
  simp only [String.append_assoc]
  rfl

/-- What is found in a name, where stretches that are in order and apart are passed over. -/
theorem entries_inName {p : Text.Pattern} {owner : String} (spans : List Char → List (Nat × Nat))
    {s : Statement} {name : String} (hname : s.name? = some name)
    (hapart : (spans name.toList).Pairwise fun u v => u.2 ≤ v.1)
    (hfull : ∀ v ∈ spans name.toList, v.1 < v.2) :
    ∃ findings, inName p owner spans s = .ok findings ∧
      (∀ f ∈ findings, f.rule = .notAllowedCharInName ∧ f.Fills) ∧
      findings.map Finding.entry = characterEntries p owner (spans name.toList) s name.toList := by
  have houtside := outsideFrom_eq hapart 0
    (fun v hv => ⟨hfull v hv, Nat.zero_lt_of_lt (hfull v hv)⟩) name.toList
  have hfound : inName p owner spans s =
      .ok (((outsideFrom 0 (spans name.toList) name.toList).filter fun entry =>
        p.foundIn [entry.2]).map fun entry => found .notAllowedCharInName
          [.string entry.2.toString, .string owner] (anchor s.line) (s.column + entry.1 + 1)) := by
    simp only [inName, hname]
  refine ⟨_, hfound, ?_, ?_⟩
  · intro f hf
    obtain ⟨entry, -, rfl⟩ := List.mem_map.mp hf
    exact ⟨rfl, (fills_found _ _ _ _).1⟩
  · rw [houtside, List.filter_map, List.filter_filter, List.map_map, List.map_map, characterEntries]
    apply congrArg₂
    · funext entry
      exact (fills_found _ _ _ _).2
    · apply List.filter_congr
      intro entry _
      exact Bool.and_comm _ _

theorem entries_inStatement (p : Text.Pattern) {s : Statement}
    (h : s.kind = .testCaseName ∨ s.kind = .keywordName → s.name?.isSome = true) :
    ∃ findings, inStatement p s = .ok findings ∧
      (∀ f ∈ findings, f.rule = .notAllowedCharInName ∧ f.Fills) ∧
      findings.map Finding.entry = nameEntries p s := by
  by_cases htest : s.kind = .testCaseName
  · obtain ⟨name, hname⟩ := Option.isSome_iff_exists.mp (h (Or.inl htest))
    simp only [inStatement, nameEntries, htest, hname, Option.getD_some]
    exact entries_inName (fun _ => []) hname .nil (by simp)
  · by_cases hkeyword : s.kind = .keywordName
    · obtain ⟨name, hname⟩ := Option.isSome_iff_exists.mp (h (Or.inr hkeyword))
      obtain ⟨parts, hparts⟩ := exists_reads false name.toList
      simp only [inStatement, nameEntries, hkeyword, hname, Option.getD_some]
      refine entries_inName findVariables hname ?_ fun v hv => ?_
      · rw [hparts.findVariables_eq]
        exact pairwise_spansFrom 0 parts
      · have hwithin := (hparts.isSpan hv).within
        omega
    · have hnone : inStatement p s = .ok [] := by
        unfold inStatement
        split
        · next hkind => exact absurd hkind htest
        · next hkind => exact absurd hkind hkeyword
        · rfl
      have hentries : nameEntries p s = [] := by
        unfold nameEntries
        dsimp only
        split
        · next hkind => exact absurd hkind htest
        · next hkind => exact absurd hkind hkeyword
        · rfl
      exact ⟨[], hnone, by simp, hentries.symm⟩

theorem exists_inStatement_iff (p : Text.Pattern) (s : Statement) :
    (∃ findings, inStatement p s = .ok findings) ↔
      (s.kind = .testCaseName ∨ s.kind = .keywordName → s.name?.isSome = true) := by
  constructor
  · rintro ⟨findings, hfindings⟩ hkind
    by_contra hname
    rw [Bool.not_eq_true, Option.isSome_eq_false_iff, Option.isNone_iff_eq_none] at hname
    rcases hkind with hkind | hkind <;> simp [inStatement, hkind, inName, hname] at hfindings
  · intro h
    obtain ⟨findings, hfindings, -⟩ := entries_inStatement p h
    exact ⟨findings, hfindings⟩

theorem entries_statements (p : Text.Pattern) {ss : List Statement}
    (h : ∀ s ∈ ss, s.kind = .testCaseName ∨ s.kind = .keywordName → s.name?.isSome = true) :
    ∃ findings, gather (inStatement p) ss = .ok findings ∧
      (∀ f ∈ findings, f.rule = .notAllowedCharInName ∧ f.Fills) ∧
      findings.map Finding.entry = ss.flatMap (nameEntries p) := by
  induction ss with
  | nil => exact ⟨[], rfl, by simp, rfl⟩
  | cons s ss ih =>
    rw [List.forall_mem_cons] at h
    obtain ⟨first, hfirst, hfills, hentries⟩ := entries_inStatement p h.1
    obtain ⟨more, hmore, hmoreFills, hmoreEntries⟩ := ih h.2
    refine ⟨first ++ more, by rw [gather, hfirst, hmore]; rfl, ?_, ?_⟩
    · exact List.forall_mem_append.mpr ⟨hfills, hmoreFills⟩
    · rw [List.map_append, hentries, hmoreEntries, List.flatMap_cons]

theorem entries_checkCharacters (vs : Values) (fileName : String) {d : Document} (h : HasNames d) :
    ∃ findings, checkCharacters vs fileName d = .ok findings ∧
      (∀ f ∈ findings, f.rule = .notAllowedCharInName ∧ f.Fills) ∧
      findings.map Finding.entry =
        suiteEntries (vs.pattern (RuleKey.notAllowedCharInName.slot "pattern")) fileName d ++
          d.statements.flatMap (nameEntries (vs.pattern (RuleKey.notAllowedCharInName.slot "pattern"))) := by
  obtain ⟨inside, hinside, hfills, hentries⟩ := entries_statements _ h
  refine ⟨_, by rw [checkCharacters, hinside]; rfl, ?_, ?_⟩
  · refine List.forall_mem_append.mpr ⟨fun f hf => ?_, hfills⟩
    obtain ⟨c, -, rfl⟩ := List.mem_map.mp hf
    exact ⟨rfl, (fills_found _ _ _ _).1⟩
  · rw [List.map_append, hentries, List.map_map, suiteEntries]
    congr 2
    funext c
    exact (fills_found _ _ _ _).2

theorem exists_checkCharacters_iff (vs : Values) (fileName : String) (d : Document) :
    (∃ findings, checkCharacters vs fileName d = .ok findings) ↔ HasNames d := by
  constructor
  · rintro ⟨findings, hfindings⟩ s hs
    obtain ⟨inside, hinside, -⟩ := exists_of_bind_eq_ok hfindings
    exact (exists_inStatement_iff _ s).mp (exists_gather_iff.mp ⟨inside, hinside⟩ s hs)
  · intro h
    obtain ⟨findings, hfindings, -⟩ := entries_checkCharacters vs fileName h
    exact ⟨findings, hfindings⟩

end Check.Naming

/-! ## What is reported -/

def Linter.namePattern (l : Linter) : Text.Pattern :=
  (l.valuesFor .notAllowedCharInName).pattern (RuleKey.notAllowedCharInName.slot "pattern")

namespace Options

open Name Check.Naming

section

variable (o : Options) {host : Host} {notes : List String} {s : Setup}
  (h : o.setup host = (notes, .ok s)) (memory : Memory) (subject : Subject)

include h

theorem scan_characters (hon : s.linter.registry.enables "0301" = true)
    (hnames : HasNames subject.document) :
    ∃ issues, (s.linter.withMemory memory).scan .charactersInNames subject = .ok issues ∧
      (Issue.among [.notAllowedCharInName] issues).map Issue.entry =
        suiteEntries s.linter.namePattern subject.fileName subject.document ++
          subject.document.statements.flatMap (nameEntries s.linter.namePattern) := by
  have hkey : RuleKey.notAllowedCharInName ∈ Checker.charactersInNames.keys := by decide
  obtain ⟨findings, hfindings, hfills, hentries⟩ := entries_checkCharacters
    (s.linter.valuesFor .notAllowedCharInName) subject.fileName hnames
  obtain ⟨issues, hissues, hreported⟩ := o.scan_only h memory hkey hon hfindings
    fun f hf => ⟨(hfills f hf).1 ▸ hkey, (hfills f hf).2⟩
  refine ⟨issues, hissues, ?_⟩
  rw [hreported, RuleKey.among, List.filter_eq_self.mpr fun f hf => decide_eq_true (hfills f hf).1]
  exact hentries

theorem scan_characters_iff (hon : s.linter.registry.enables "0301" = true) :
    (∃ issues, (s.linter.withMemory memory).scan .charactersInNames subject = .ok issues) ↔
      HasNames subject.document := by
  constructor
  · rintro ⟨issues, hissues⟩
    rw [← exists_checkCharacters_iff (s.linter.valuesFor .notAllowedCharInName) subject.fileName]
    cases hrun : checkCharacters (s.linter.valuesFor .notAllowedCharInName) subject.fileName
        subject.document with
    | ok findings => exact ⟨findings, rfl⟩
    | error e =>
      have hkey : RuleKey.notAllowedCharInName ∈ Checker.charactersInNames.keys := by decide
      have hbroken : (s.linter.withMemory memory).scan .charactersInNames subject =
          .error (.brokenCheck e) := o.scan_broken h memory hkey hrun
      rw [hbroken] at hissues
      cases hissues
  · intro hnames
    obtain ⟨issues, hissues, -⟩ := o.scan_characters h memory subject hon hnames
    exact ⟨issues, hissues⟩

end

/-- The stretches that are found for the variables of a name are variables, in order and apart, and what else
opens in the name stands at or behind a variable that is never closed. The check for not-allowed-char-in-name
(0301) goes through exactly if the test cases and keywords have names. Then the characters that `pattern`
finds are reported, in the names of keywords those outside of the stretches, each once and from the left, with
the column at which it stands. -/
theorem characters_outside_variables_reported (o : Options) {host : Host} {notes : List String}
    {s : Setup} (h : o.setup host = (notes, .ok s))
    (hon : s.linter.registry.enables "0301" = true) (memory : Memory) (subject : Subject) :
    (∀ name : List Char,
        (findVariables name).Pairwise (fun u v => u.2 ≤ v.1) ∧
          (∀ v ∈ findVariables name, IsSpan name v) ∧
          ∀ i, Opens name i → isOutside (findVariables name) i = true →
            ∃ j ≤ i, Opens name j ∧ isOutside (findVariables name) j = true ∧ NeverCloses name j) ∧
      ((∃ issues, (s.linter.withMemory memory).scan .charactersInNames subject = .ok issues) ↔
        HasNames subject.document) ∧
      ∀ issues, (s.linter.withMemory memory).scan .charactersInNames subject = .ok issues →
        (Issue.among [.notAllowedCharInName] issues).map Issue.entry =
          suiteEntries s.linter.namePattern subject.fileName subject.document ++
            subject.document.statements.flatMap (nameEntries s.linter.namePattern) := by
  have hiff := o.scan_characters_iff h memory subject hon
  refine ⟨fun name => ?_, hiff, fun issues hissues => ?_⟩
  · obtain ⟨parts, hparts⟩ := exists_reads false name
    refine ⟨?_, fun v => hparts.isSpan, fun i => hparts.exists_neverCloses⟩
    rw [hparts.findVariables_eq]
    exact pairwise_spansFrom 0 parts
  · have hnames := hiff.mp ⟨issues, hissues⟩
    obtain ⟨issues', hissues', hentries⟩ := o.scan_characters h memory subject hon hnames
    rw [hissues, Except.ok.injEq] at hissues'
    rw [hissues', hentries]

end Options

/-- Keywords and a test case with dots in and between variables, some of which are one in another, escaped
or not closed. -/
def Subject.dottedNames : Subject :=
  ⟨"a.b.robot", .text [], ⟨none, [
    ⟨.testCases, none, [.bare .testCase .testCaseName .testCaseName "A.$\x7bb.c\x7d" 2]⟩,
    ⟨.keywords, none,
      [.bare .keyword .keywordName .keywordName "A.$\x7bb.c$\x7bd.\x7d.\x7d@\x7b.\x7d.e?" 4,
        .bare .keyword .keywordName .keywordName "\\$\x7b.\x7d$\x7b.$\x7b.\x7d" 5]⟩]⟩⟩

theorem Options.characters_outside_variables_reported_dottedNames :
    ∃ (s : Setup) (issues : List Issue), standard.setup .plain = ([], .ok s) ∧
      s.linter.registry.enables "0301" = true ∧ Check.Naming.HasNames Subject.dottedNames.document ∧
      s.linter.scan .charactersInNames .dottedNames = .ok issues ∧
      (Issue.among [.notAllowedCharInName] issues).map (fun i => (i.line, i.col)) =
        [(2, 1), (2, 2), (2, 6), (4, 2), (4, 19), (4, 21), (5, 4), (5, 8), (5, 11)] := by
  have hsetup := setup_standard .plain
  have hon := enables_standard hsetup .notAllowedCharInName
  have hnames : Check.Naming.HasNames Subject.dottedNames.document := by decide +kernel
  obtain ⟨-, hiff, hreported⟩ := characters_outside_variables_reported standard hsetup hon .blank
    .dottedNames
  obtain ⟨issues, hissues⟩ := hiff.mpr hnames
  refine ⟨_, issues, hsetup, hon, hnames, hissues, ?_⟩
  have hplaces := congrArg (List.map fun entry => (entry.2.2.1, entry.2.2.2)) (hreported issues hissues)
  rw [List.map_map] at hplaces
  exact hplaces.trans (by decide +kernel)

end SuiteLint
