import Mathlib.Data.List.Forall2
import SuiteLint.Proofs.NestedBlocks
import SuiteLint.Proofs.SettingLocality

/-!
# What a checker reports of some rules

A template has places for texts and whole numbers, with plain text between them. Where the findings of a
checker can all be filled in, its issues of the rules that are on are those of the findings of these rules,
one by one.
-/

namespace SuiteLint

/-! ## Templates -/

namespace Text

/-- A place of a template, for a text or for a whole number. -/
inductive Place where
  | text
  | number
  deriving DecidableEq

/-- The places of a template, if there are no others in it. -/
def places? : List Char → Option (List Place)
  | [] => some []
  | '%' :: 's' :: rest => (places? rest).map (.text :: ·)
  | '%' :: 'd' :: rest => (places? rest).map (.number :: ·)
  | c :: rest => if c = '%' then none else places? rest

def Place.Takes : Place → Datum → Prop
  | text, _ => True
  | number, arg => ∃ n, arg.integer? = some n

/-- The characters of a template, arguments for its places, and the text that comes of them. -/
inductive Wording : List Char → List Datum → String → Prop
  | last {s : String} {chars : List Char} (h : s = String.ofList chars)
      (hplain : chars.contains '%' = false) : Wording chars [] s
  | plain {s text : String} {chars rest : List Char} {args : List Datum} (h : s = String.ofList chars)
      (hplain : chars.contains '%' = false) (more : Wording rest args text) :
      Wording (chars ++ rest) args (s ++ text)
  | text {arg : Datum} {text : String} {rest : List Char} {args : List Datum}
      (more : Wording rest args text) : Wording ('%' :: 's' :: rest) (arg :: args) (arg.text ++ text)
  | number {arg : Datum} {n : Int} {text : String} {rest : List Char} {args : List Datum}
      (h : arg.integer? = some n) (more : Wording rest args text) :
      Wording ('%' :: 'd' :: rest) (arg :: args) (toString n ++ text)

theorem exists_wording {chars : List Char} {places : List Place} {args : List Datum}
    (h : places? chars = some places) (htakes : List.Forall₂ Place.Takes places args) :
    ∃ text, Wording chars args text := by
  induction chars using places?.induct generalizing places args with
  | case1 =>
    obtain rfl := Option.some.inj h
    cases htakes
    exact ⟨"", .last rfl rfl⟩
  | case2 rest ih =>
    obtain ⟨more, hmore, rfl⟩ := Option.map_eq_some_iff.mp h
    cases htakes with
    | cons harg hargs =>
      obtain ⟨text, htext⟩ := ih hmore hargs
      exact ⟨_, htext.text⟩
  | case3 rest ih =>
    obtain ⟨more, hmore, rfl⟩ := Option.map_eq_some_iff.mp h
    cases htakes with
    | cons harg hargs =>
      obtain ⟨n, hn⟩ := harg
      obtain ⟨text, htext⟩ := ih hmore hargs
      exact ⟨_, htext.number hn⟩
  | case4 rest htext hnumber =>
    rw [places?, if_pos rfl] at h <;> simp_all
  | case5 c rest htext hnumber hc ih =>
    rw [places?, if_neg hc] at h
    · obtain ⟨text, hrest⟩ := ih h htakes
      have hplain : [c].contains '%' = false := by simpa using Ne.symm hc
      exact ⟨_, hrest.plain rfl hplain⟩
    · exact htext
    · exact hnumber

theorem toList_of_eq {s : String} {chars : List Char} (h : s = String.ofList chars) :
    s.toList = chars := by
  rw [h, String.toList_ofList]

/-- A layout that asks for nothing. -/
def PercentLayout.bare : PercentLayout := ⟨[], 0, none⟩

private theorem PercentLayout.writeText_bare (s : List Char) : PercentLayout.bare.writeText s = s := by
  simp [writeText, pad, bare, has]

theorem PercentLayout.writeInteger_bare (n : Int) :
    PercentLayout.bare.writeInteger 'd' n = (toString n).toList := by
  have hdigits (m : Nat) : m.repr.toList = Nat.toDigits 10 m := by
    rw [Nat.repr_eq_ofList_toDigits, String.toList_ofList]
  rw [Int.toString_eq_repr, Int.repr_eq_if]
  by_cases hn : 0 ≤ n
  · have habs : n.toNat = n.natAbs := by omega
    simp [writeInteger, padNumber, pad, bare, has, radixDigits, hdigits, hn, Int.not_lt.mpr hn, habs]
  · have habs : (-n).toNat = n.natAbs := by omega
    simp [writeInteger, padNumber, pad, bare, has, radixDigits, hdigits, hn, Int.not_le.mp hn, habs]

theorem fillFrom_plain {plain : List Char} (rest : List Char) (h : plain.contains '%' = false)
    (args : List Datum) (index bound : Nat) :
    fillFrom (plain.length + bound) ⟨index, plain ++ rest, args⟩ =
      (fillFrom bound ⟨index + plain.length, rest, args⟩).map (plain ++ ·) := by
  induction plain generalizing index with
  | nil =>
    rw [List.length_nil, Nat.zero_add, List.nil_append, Nat.add_zero]
    cases fillFrom bound ⟨index, rest, args⟩ <;> rfl
  | cons c plain ih =>
    rw [List.contains_cons, Bool.or_eq_false_iff, beq_eq_false_iff_ne] at h
    have hmore := ih h.2 (index + 1)
    rw [List.length_cons, Nat.add_right_comm, List.cons_append]
    have hstep : fillFrom (plain.length + bound + 1) ⟨index, c :: (plain ++ rest), args⟩ =
        (fillFrom (plain.length + bound) ⟨index + 1, plain ++ rest, args⟩).map (c :: ·) := by
      rw [fillFrom]
      split <;> simp_all [PercentState.skip, bind, Except.bind, pure, Except.pure, Except.map]
    rw [hstep, hmore, Nat.add_assoc, Nat.add_comm 1]
    cases fillFrom bound ⟨index + (plain.length + 1), rest, args⟩ <;> rfl

theorem fillFrom_place {letter : Char} (hletter : letter = 's' ∨ letter = 'd') {field : List Char}
    {arg : Datum} {index : Nat} (hfield : percentField .bare letter (index + 1) arg = .ok field)
    (rest : List Char) (args : List Datum) (bound : Nat) :
    fillFrom (bound + 1) ⟨index, '%' :: letter :: rest, arg :: args⟩ =
      (fillFrom bound ⟨index + 2, rest, args⟩).map (field ++ ·) := by
  have hlayout : (PercentState.mk (index + 1) (letter :: rest) (arg :: args)).layout =
      .ok (.bare, ⟨index + 1, letter :: rest, arg :: args⟩) := by
    rcases hletter with rfl | rfl <;> rfl
  have hsign : letter ≠ '%' ∧ letter ≠ '(' := by rcases hletter with rfl | rfl <;> decide
  rw [fillFrom]
  split
  · next h => cases h
  · next h => exact absurd (List.cons.inj (List.cons.inj h).2).1 hsign.1
  · next h => exact absurd (List.cons.inj (List.cons.inj h).2).1 hsign.2
  · simp only [PercentState.skip, List.drop_succ_cons, List.drop_zero, hlayout, PercentState.nextArg,
      bind, Except.bind, hfield, pure, Except.pure]
    cases fillFrom bound ⟨index + 2, rest, args⟩ <;> rfl
  · next hplace h => exact (hplace (List.cons.inj h).1.symm).elim

theorem fillFrom_wording {chars : List Char} {args : List Datum} {text : String}
    (h : Wording chars args text) (index bound : Nat) :
    fillFrom (chars.length + bound + 1) ⟨index, chars, args⟩ = .ok text.toList := by
  induction h generalizing index bound with
  | last h hplain =>
    have hend := fillFrom_plain [] hplain [] index (bound + 1)
    rw [List.append_nil] at hend
    rw [Nat.add_assoc, hend, h, String.toList_ofList]
    simp [fillFrom, Except.map]
  | @plain s text chars rest args h hplain more ih =>
    have hbound : (chars ++ rest).length + bound + 1 = chars.length + (rest.length + bound + 1) := by
      rw [List.length_append]
      omega
    rw [hbound, fillFrom_plain rest hplain, ih, h]
    simp [Except.map]
  -- A place is shorter by one step than it is long; the step left over goes to the rest.
  | @text arg text rest args more ih =>
    have hfield : percentField .bare 's' (index + 1) arg = .ok arg.text.toList := by
      simp [percentField, PercentLayout.writeText_bare]
    have hbound : ('%' :: 's' :: rest).length + bound + 1 = (rest.length + (bound + 1) + 1) + 1 := by
      simp only [List.length_cons]
      omega
    rw [hbound, fillFrom_place (Or.inl rfl) hfield, ih]
    simp [Except.map]
  | @number arg n text rest args h more ih =>
    have hfield : percentField .bare 'd' (index + 1) arg = .ok (toString n).toList := by
      simp [percentField, h, PercentLayout.writeInteger_bare]
    have hbound : ('%' :: 'd' :: rest).length + bound + 1 = (rest.length + (bound + 1) + 1) + 1 := by
      simp only [List.length_cons]
      omega
    rw [hbound, fillFrom_place (Or.inr rfl) hfield, ih]
    simp [Except.map]

end Text

def RuleKey.places? (key : RuleKey) : Option (List Text.Place) := Text.places? key.template.toList

theorem RuleKey.places_of_template {key : RuleKey} {chars : List Char} {places : List Text.Place}
    (h : key.template = String.ofList chars) (hplaces : Text.places? chars = some places) :
    key.places? = some places := by
  rw [places?, Text.toList_of_eq h, hplaces]

namespace Finding

variable {f : Finding} {key : RuleKey} {chars : List Char} {args : List Datum}

theorem fills_of_wording {text : String} (h : Text.Wording chars args text)
    (htemplate : f.rule.template = String.ofList chars) (hargs : f.args = args) :
    f.Fills ∧ f.message = text := by
  have hfill : Text.fill f.rule.template f.args = .ok text := by
    have hlength : f.rule.template.length + 1 = chars.length + 0 + 1 := by
      rw [htemplate, String.length_ofList]
    rw [Text.fill, hlength, Text.toList_of_eq htemplate, hargs, Text.fillFrom_wording h 0 0]
    exact congrArg Except.ok String.ofList_toList
  refine ⟨⟨_, hfill⟩, ?_⟩
  rw [Finding.message, hfill]
  rfl

theorem message_of_wording {text : String} (h : Text.Wording chars args text)
    (htemplate : f.rule.template = String.ofList chars) (hargs : f.args = args) : f.message = text :=
  (fills_of_wording h htemplate hargs).2

theorem fills_of_places {places : List Text.Place} (hrule : f.rule = key) (hargs : f.args = args)
    (h : key.places? = some places) (htakes : List.Forall₂ Text.Place.Takes places args) : f.Fills := by
  obtain ⟨text, hwording⟩ := Text.exists_wording h htakes
  exact (fills_of_wording hwording (hrule ▸ String.ofList_toList.symm) hargs).1

theorem fills_of_template {places : List Text.Place} (hrule : f.rule = key) (hargs : f.args = args)
    (h : key.template = String.ofList chars) (hplaces : Text.places? chars = some places)
    (htakes : List.Forall₂ Text.Place.Takes places args) : f.Fills :=
  fills_of_places hrule hargs (RuleKey.places_of_template h hplaces) htakes

/-- Where the texts of the rules of a checker have no places, its findings fill them in without
arguments. -/
theorem fills_of_plain {c : Checker} (hplain : ∀ key ∈ c.keys, key.places? = some [])
    (h : f.rule ∈ c.keys ∧ f.args = []) : f.Fills :=
  fills_of_places rfl h.2 (hplain f.rule h.1) .nil

theorem message_of_plain (h : f.rule.template = String.ofList chars)
    (hplain : chars.contains '%' = false) (hargs : f.args = []) : f.message = f.rule.template :=
  message_of_wording (.last h hplain) h hargs

end Finding

/-! ## The issues of some rules -/

def Issue.among (keys : List RuleKey) (issues : List Issue) : List Issue :=
  issues.filter fun i => keys.any (·.id = i.ruleId)

def Linter.withMemory (l : Linter) (memory : Memory) : Linter := { l with memory }

theorem Issue.entry_among {keys : List RuleKey} {on : RuleKey → Bool} (hon : ∀ key ∈ keys, on key = true)
    (t : Tuning) (source : String) (findings : List Finding) :
    (Issue.among keys ((findings.filter (on ·.rule)).map (·.issue t source))).map Issue.entry =
      (findings.filter fun f => decide (f.rule ∈ keys)).map Finding.entry := by
  have hentry : (Issue.entry ∘ fun f : Finding => f.issue t source) = Finding.entry := rfl
  rw [Issue.among, List.filter_map, List.map_map, hentry, List.filter_filter]
  congr 1
  apply List.filter_congr
  intro f _
  have hid : keys.any (fun key => decide (key.id = (f.issue t source).ruleId)) = true ↔
      f.rule ∈ keys := by
    rw [List.any_eq_true]
    constructor
    · rintro ⟨key, hkey, hsame⟩
      exact RuleKey.eq_of_id (of_decide_eq_true hsame) ▸ hkey
    · exact fun hf => ⟨f.rule, hf, decide_eq_true rfl⟩
  by_cases hf : f.rule ∈ keys
  · simp [Function.comp, hid.mpr hf, hon f.rule hf, hf]
  · simp [Function.comp, Bool.eq_false_iff.mpr (mt hid.mp hf), hf]

theorem Options.valuesFor_eq (o : Options) {host : Host} {notes : List String} {s : Setup}
    (h : o.setup host = (notes, .ok s)) {c : Checker} {key other : RuleKey} (hkey : key ∈ c.keys)
    (hother : other ∈ c.keys) : s.linter.valuesFor key = s.linter.valuesFor other := by
  obtain ⟨-, t, -, hlinter⟩ := setup_ok_iff.mp h
  rw [hlinter, Linter.valuesFor_tuned host _ t _ hkey, Linter.valuesFor_tuned host _ t _ hother]

/-- What a checker finds in a document, with the values that the linter holds for one of its rules. -/
abbrev Linter.finds (l : Linter) (host : Host) (c : Checker) (key : RuleKey) (subject : Subject)
    (memory : Memory) : Except Breakdown (List Finding) :=
  (c.run (subject.openJob host) (l.valuesFor key) ⟨subject.document, memory⟩).1

namespace Options

variable (o : Options) {host : Host} {notes : List String} {s : Setup}
  (h : o.setup host = (notes, .ok s)) (memory : Memory) {c : Checker} {key : RuleKey}
  (hkey : key ∈ c.keys) {subject : Subject}

include h hkey

/-- Where the findings of a checker can be filled in, it reports the findings of all rules that are
on. -/
theorem scan_findings {findings : List Finding}
    (hrun : s.linter.finds host c key subject memory = .ok findings)
    (hfills : ∀ f ∈ findings, f.rule ∈ c.keys ∧ f.Fills) :
    ∃ issues : List Issue, (s.linter.withMemory memory).scan c subject = .ok issues ∧
      ∀ keys : List RuleKey,
        (∀ key ∈ keys, key ∈ c.keys ∧ s.linter.registry.enables key.id = true) →
          (Issue.among keys issues).map Issue.entry =
            (findings.filter fun f => decide (f.rule ∈ keys)).map Finding.entry := by
  obtain ⟨-, t, -, hlinter⟩ := setup_ok_iff.mp h
  rw [Linter.finds, hlinter, Linter.valuesFor_tuned host _ t _ hkey] at hrun
  have hscan : (s.linter.withMemory memory).scan c subject =
      .ok ((findings.filter (o.selection.picks ·.rule)).map (·.issue t subject.fileName)) := by
    rw [hlinter]
    exact Linter.scan_of_fills hrun hfills
  refine ⟨_, hscan, fun keys hkeys => Issue.entry_among ?_ t subject.fileName findings⟩
  intro key hmem
  exact (enables_eq_picks h key).symm.trans (hkeys key hmem).2

theorem scan_broken {e : Breakdown}
    (hrun : s.linter.finds host c key subject memory = .error e) :
    (s.linter.withMemory memory).scan c subject = .error (.brokenCheck e) := by
  obtain ⟨-, t, -, hlinter⟩ := setup_ok_iff.mp h
  rw [Linter.finds, hlinter, Linter.valuesFor_tuned host _ t _ hkey] at hrun
  have hlinter' : s.linter.withMemory memory = ⟨host, .tuned host o.selection.picks t, memory⟩ := by
    rw [hlinter]
    rfl
  have htag : (c.tuned host o.selection.picks t).tag = c := rfl
  have hvalues : (c.tuned host o.selection.picks t).values = t.values c := rfl
  rw [hlinter', Linter.scan_tuned, Linter.outcome, htag, hvalues, hrun]

/-- Where the findings of a checker can be filled in, it reports the findings of given rules that are
on. -/
theorem scan_among {keys : List RuleKey}
    (hkeys : ∀ key ∈ keys, key ∈ c.keys ∧ s.linter.registry.enables key.id = true) {findings : List Finding}
    (hrun : s.linter.finds host c key subject memory = .ok findings)
    (hfills : ∀ f ∈ findings, f.rule ∈ c.keys ∧ f.Fills) :
    ∃ issues : List Issue, (s.linter.withMemory memory).scan c subject = .ok issues ∧
      (Issue.among keys issues).map Issue.entry =
        (findings.filter fun f => decide (f.rule ∈ keys)).map Finding.entry := by
  obtain ⟨issues, hissues, hentries⟩ := o.scan_findings h memory hkey hrun hfills
  exact ⟨issues, hissues, hentries keys hkeys⟩

theorem scan_each {findings : List Finding}
    (hrun : s.linter.finds host c key subject memory = .ok findings)
    (hfills : ∀ f ∈ findings, f.rule ∈ c.keys ∧ f.Fills) :
    ∃ issues : List Issue, (s.linter.withMemory memory).scan c subject = .ok issues ∧
      ∀ key ∈ c.keys, s.linter.registry.enables key.id = true →
        (Issue.among [key] issues).map Issue.entry = (key.among findings).map Finding.entry := by
  obtain ⟨issues, hissues, hentries⟩ := o.scan_findings h memory hkey hrun hfills
  refine ⟨issues, hissues, fun key hkey hon => ?_⟩
  rw [hentries [key] (List.forall_mem_singleton.mpr ⟨hkey, hon⟩)]
  simp only [List.mem_singleton]
  rfl

theorem scan_only (hon : s.linter.registry.enables key.id = true) {findings : List Finding}
    (hrun : s.linter.finds host c key subject memory = .ok findings)
    (hfills : ∀ f ∈ findings, f.rule ∈ c.keys ∧ f.Fills) :
    ∃ issues : List Issue, (s.linter.withMemory memory).scan c subject = .ok issues ∧
      (Issue.among [key] issues).map Issue.entry = (key.among findings).map Finding.entry := by
  obtain ⟨issues, hissues, hentries⟩ := o.scan_each h memory hkey hrun hfills
  exact ⟨issues, hissues, hentries key hkey hon⟩

/-- A scan gives issues exactly if the run gives findings, and those of a rule that is on are told in order. -/
theorem scan_iff (hon : s.linter.registry.enables key.id = true)
    {run : Except Breakdown (List Finding)}
    (hrun : s.linter.finds host c key subject memory = run)
    (hfills : ∀ findings, run = .ok findings → ∀ f ∈ findings, f.rule ∈ c.keys ∧ f.Fills) :
    ((∃ issues, (s.linter.withMemory memory).scan c subject = .ok issues) ↔
        ∃ findings, run = .ok findings) ∧
      ∀ issues, (s.linter.withMemory memory).scan c subject = .ok issues →
        ∃ findings, run = .ok findings ∧
          (Issue.among [key] issues).map Issue.entry = (key.among findings).map Finding.entry := by
  cases hrun' : run with
  | error e =>
    rw [o.scan_broken h memory hkey (hrun.trans hrun')]
    simp
  | ok findings =>
    obtain ⟨issues, hissues, hentries⟩ :=
      o.scan_only h memory hkey hon (hrun.trans hrun') (hfills findings hrun')
    rw [hissues]
    refine ⟨⟨fun _ => ⟨findings, rfl⟩, fun _ => ⟨issues, rfl⟩⟩, fun issues' heq => ⟨findings, rfl, ?_⟩⟩
    rw [← Except.ok.inj heq, hentries]

end Options

end SuiteLint
