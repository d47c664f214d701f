import SuiteLint.Proofs.RegistryLoading

/-!
# The table of rules

Names and ids of rules are keys of one table, and a checker is refused exactly if one of its rules brings a
key that is taken. So as long as none is refused, the table has two keys for every rule, and both lead to
it.
-/

namespace SuiteLint

namespace Rule

/-- One of these rules brings a name or id that is taken, or that an earlier one of them has brought. -/
def BringTaken (taken : List String) (rules : List Rule) : Prop :=
  ∃ before rule after, rules = before ++ rule :: after ∧
    ∃ key, (key = rule.name ∨ key = rule.id) ∧
      (key ∈ taken ∨ ∃ earlier ∈ before, key = earlier.name ∨ key = earlier.id)

private theorem not_bringTaken_nil (taken : List String) : ¬ BringTaken taken [] := by
  rintro ⟨before, rule, after, hrules, -⟩
  cases before <;> cases hrules

/-- To the rules after it, the keys of a rule are taken as well. -/
@[simp] theorem bringTaken_cons (taken : List String) (rule : Rule) (rules : List Rule) :
    BringTaken taken (rule :: rules) ↔
      rule.name ∈ taken ∨ rule.id ∈ taken ∨ BringTaken (taken ++ [rule.name, rule.id]) rules := by
  constructor
  · rintro ⟨before, later, after, hrules, key, hkey, htaken⟩
    cases before with
    | nil =>
      obtain ⟨rfl, rfl⟩ := List.cons.inj hrules
      have hmem : key ∈ taken := htaken.resolve_right (by simp)
      rcases hkey with rfl | rfl
      · exact Or.inl hmem
      · exact Or.inr (Or.inl hmem)
    | cons first before =>
      obtain ⟨rfl, rfl⟩ := List.cons.inj hrules
      refine Or.inr (Or.inr ⟨before, later, after, rfl, key, hkey, ?_⟩)
      rcases htaken with hmem | ⟨earlier, hmem, heq⟩
      · exact Or.inl (List.mem_append_left _ hmem)
      · rcases List.mem_cons.mp hmem with rfl | hmem
        · exact Or.inl (List.mem_append_right _ (by simpa using heq))
        · exact Or.inr ⟨earlier, hmem, heq⟩
  · rintro (hname | hid | ⟨before, later, after, rfl, key, hkey, htaken⟩)
    · exact ⟨[], rule, rules, rfl, _, Or.inl rfl, Or.inl hname⟩
    · exact ⟨[], rule, rules, rfl, _, Or.inr rfl, Or.inl hid⟩
    · refine ⟨rule :: before, later, after, rfl, key, hkey, ?_⟩
      rcases htaken with hmem | ⟨earlier, hmem, heq⟩
      · rcases List.mem_append.mp hmem with hmem | hmem
        · exact Or.inl hmem
        · exact Or.inr ⟨rule, List.mem_cons_self, by simpa using hmem⟩
      · exact Or.inr ⟨earlier, List.mem_cons_of_mem rule hmem, heq⟩

private theorem bringTaken_map {f : Rule → Rule} (hname : ∀ rule, (f rule).name = rule.name)
    (hid : ∀ rule, (f rule).id = rule.id) (taken : List String) (rules : List Rule) :
    BringTaken taken (rules.map f) ↔ BringTaken taken rules := by
  induction rules generalizing taken with
  | nil => rfl
  | cons rule rules ih => rw [List.map_cons, bringTaken_cons, bringTaken_cons, hname, hid, ih]

/-- Rules that bring no key that is taken bring two new keys each. -/
theorem nodup_of_not_bringTaken {taken : List String} {rules : List Rule} (htaken : taken.Nodup)
    (hkeys : ∀ rule ∈ rules, rule.name ≠ rule.id) (h : ¬ BringTaken taken rules) :
    (taken ++ rules.flatMap fun rule => [rule.name, rule.id]).Nodup := by
  induction rules generalizing taken with
  | nil => simpa using htaken
  | cons rule rules ih =>
    rw [bringTaken_cons, not_or, not_or] at h
    obtain ⟨hname, hid, hrest⟩ := h
    have hnew : (taken ++ [rule.name, rule.id]).Nodup := by
      refine List.nodup_append.mpr ⟨htaken, by simpa using hkeys rule List.mem_cons_self, ?_⟩
      rintro key hmem _ hkey rfl
      rcases List.mem_cons.mp hkey with rfl | hkey
      · exact hname hmem
      · exact hid (List.mem_singleton.mp hkey ▸ hmem)
    have hall := ih hnew (fun other hother => hkeys other (List.mem_cons_of_mem rule hother)) hrest
    simpa using hall

end Rule

namespace CheckerEntry

variable {κ : Type} {c : CheckerEntry κ}

def HasTwoKeysEach (c : CheckerEntry κ) : Prop := ∀ rule ∈ c.rules, rule.name ≠ rule.id

private theorem bringTaken_select (s : Selection) (taken : List String) :
    Rule.BringTaken taken (c.select s).rules ↔ Rule.BringTaken taken c.rules :=
  Rule.bringTaken_map (f := fun rule => { rule with enabled := s.admits rule })
    (fun _ => rfl) (fun _ => rfl) taken c.rules

private theorem hasTwoKeysEach_of_select {s : Selection} (h : (c.select s).HasTwoKeysEach) :
    c.HasTwoKeysEach := by
  intro rule hrule
  have hselected := h { rule with enabled := s.admits rule } (List.mem_map_of_mem hrule)
  exact hselected

theorem ruleNamed?_of_mem (h : c.labels.Nodup) {rule : Rule} (hrule : rule ∈ c.rules) :
    c.ruleNamed? rule.name = some rule := by
  obtain ⟨before, after, hrules⟩ := List.append_of_mem hrule
  rw [labels, hrules, List.flatMap_append, List.flatMap_cons, List.nodup_append] at h
  rw [ruleNamed?, hrules, List.find?_append, List.find?_cons_of_pos (by simp)]
  have hbefore : before.find? (·.name = rule.name) = none := by
    rw [List.find?_eq_none]
    intro earlier hearlier hname
    refine h.2.2 earlier.name (List.mem_flatMap.mpr ⟨earlier, hearlier, by simp⟩) rule.name (by simp) ?_
    exact of_decide_eq_true hname
  rw [hbefore, Option.none_or]

end CheckerEntry

namespace Registry

variable {κ : Type}

/-! ## One call -/

/-- Rules are entered as long as none of them brings a key that is taken. -/
theorem enter_cases (place : Nat) (title : String) (r : Registry κ) (rules : List Rule) :
    (Rule.BringTaken r.known rules ∧ ∃ what key earlier,
        (enter place title r rules).2 = .error (.duplicatedRule what key title earlier)) ∨
      (¬ Rule.BringTaken r.known rules ∧ (enter place title r rules).2 = .ok ()) := by
  induction rules generalizing r with
  | nil => exact Or.inr ⟨Rule.not_bringTaken_nil r.known, rfl⟩
  | cons rule rules ih =>
    have hknown {key : String} {ref : RuleRef} (h : r.table.lookup key = some ref) : key ∈ r.known :=
      List.mem_map_of_mem (Lookup.mem_of_eq_some h)
    have hfree {key : String} (h : r.table.lookup key = none) : key ∉ r.known := by
      intro hmem
      obtain ⟨entry, hentry, rfl⟩ := List.mem_map.mp hmem
      exact absurd rfl (bne_iff_ne.mp (List.lookup_eq_none_iff.mp h entry hentry))
    rw [Rule.bringTaken_cons, enter]
    split
    · next hname => exact Or.inl ⟨Or.inl (hknown hname), _, _, _, rfl⟩
    · next hid => exact Or.inl ⟨Or.inr (Or.inl (hknown hid)), _, _, _, rfl⟩
    · next hname hid =>
      rw [or_iff_right (hfree hname), or_iff_right (hfree hid)]
      have hrest := ih { r with
        table := r.table ++ [(rule.name, ⟨place, rule.name⟩), (rule.id, ⟨place, rule.name⟩)] }
      simpa only [known, List.map_append, List.map_cons, List.map_nil] using hrest

theorem outcome_register (r : Registry κ) (s : Selection) (c : CheckerEntry κ) :
    (r.register s c).2 = (enter r.checkers.length (c.select s).title
      { r with checkers := r.checkers ++ [c.select s] } (c.select s).rules).2 := by
  unfold register
  simp only
  split
  · next h => rw [h]
  · next h => rw [h]

/-- A checker is refused if its rules bring a key that is taken, and registered otherwise. -/
theorem register_cases (r : Registry κ) (s : Selection) (c : CheckerEntry κ) :
    (Rule.BringTaken r.known c.rules ∧ ∃ what key earlier,
        (r.register s c).2 = .error (.duplicatedRule what key c.title earlier)) ∨
      (¬ Rule.BringTaken r.known c.rules ∧ (r.register s c).2 = .ok ()) := by
  rw [outcome_register, ← CheckerEntry.bringTaken_select s]
  exact enter_cases r.checkers.length (c.select s).title { r with checkers := r.checkers ++ [c.select s] }
    (c.select s).rules

/-! ## A row of calls -/

/-- What a row of calls leads to that have all registered a checker, which is kept with its rules switched
on and off by the selection of the call. -/
inductive AfterCalls : List (CheckerEntry κ) → Registry κ → Prop
  | start : AfterCalls [] empty
  | call {cs : List (CheckerEntry κ)} {r r' : Registry κ} (s : Selection) (c : CheckerEntry κ)
      (h : AfterCalls cs r) (hcall : r.register s c = (r', .ok ())) : AfterCalls (cs ++ [c.select s]) r'

/-- After each call the registry is that of the checkers so far, whose keys all differ. -/
theorem AfterCalls.eq_ofCheckers {cs : List (CheckerEntry κ)} {r : Registry κ} (h : AfterCalls cs r)
    (hkeys : ∀ c ∈ cs, c.HasTwoKeysEach) : r = ofCheckers cs ∧ (cs.flatMap (·.labels)).Nodup := by
  induction h with
  | start => exact ⟨rfl, List.nodup_nil⟩
  | @call cs r r' s c h hcall ih =>
    obtain ⟨rfl, hnodup⟩ := ih fun other hother => hkeys other (List.mem_append_left _ hother)
    have hc : c.HasTwoKeysEach :=
      CheckerEntry.hasTwoKeysEach_of_select (hkeys _ (List.mem_append_right _ List.mem_cons_self))
    have hfree : ¬ Rule.BringTaken (ofCheckers cs).known c.rules := by
      rcases register_cases (ofCheckers cs) s c with ⟨-, what, key, earlier, herror⟩ | ⟨hfree, -⟩
      · rw [hcall] at herror
        cases herror
      · exact hfree
    rw [known_ofCheckers] at hfree
    have hall : (cs.flatMap (·.labels) ++ c.labels).Nodup :=
      Rule.nodup_of_not_bringTaken hnodup hc hfree
    rw [register_ofCheckers cs s c hall] at hcall
    refine ⟨(Prod.mk.inj hcall).1.symm, ?_⟩
    simpa using hall

theorem mem_tableFrom {cs : List (CheckerEntry κ)} {i : Nat} {c : CheckerEntry κ} {rule : Rule}
    (hc : cs[i]? = some c) (hrule : rule ∈ c.rules) {key : String}
    (hkey : key = rule.name ∨ key = rule.id) : (key, ⟨i, rule.name⟩) ∈ tableFrom 0 cs := by
  refine List.mem_flatMap.mpr ⟨(c, i), List.mem_zipIdx_iff_getElem?.mpr hc, ?_⟩
  refine List.mem_flatMap.mpr ⟨rule, hrule, ?_⟩
  rcases hkey with rfl | rfl
  · exact List.mem_cons_self
  · exact List.mem_cons_of_mem _ List.mem_cons_self

/-- Both keys of a rule lead to it and its checker. -/
theorem find?_ofCheckers {cs : List (CheckerEntry κ)} (h : (cs.flatMap (·.labels)).Nodup) {i : Nat}
    {c : CheckerEntry κ} (hc : cs[i]? = some c) {rule : Rule} (hrule : rule ∈ c.rules) {key : String}
    (hkey : key = rule.name ∨ key = rule.id) :
    (ofCheckers cs).find? key = some (⟨i, rule.name⟩, c, rule) := by
  have hlookup : (ofCheckers cs).table.lookup key = some ⟨i, rule.name⟩ := by
    rw [Lookup.eq_some_iff_mem]
    · exact mem_tableFrom hc hrule hkey
    · exact (keys_tableFrom 0 cs).symm ▸ h
  have hlabels : c.labels.Nodup := by
    obtain ⟨before, after, rfl⟩ := List.append_of_mem (List.mem_of_getElem? hc)
    rw [List.flatMap_append, List.flatMap_cons] at h
    exact (List.nodup_append.mp (List.nodup_append.mp h).2.1).1
  have hchecker : (ofCheckers cs).checkers[i]? = some c := hc
  rw [find?, hlookup]
  simp only [Option.bind_eq_bind, Option.bind_some, hchecker, c.ruleNamed?_of_mem hlabels hrule]
  rfl

/-- After any row of calls without a refusal on checkers that have no rule with its id for a name, the
table has exactly two keys for each rule, its name and its id, which both lead to the rule and its checker;
and the next call is refused exactly if one of its rules brings a name or id that is taken, and registers
the checker otherwise. -/
theorem table_unambiguous {cs : List (CheckerEntry κ)} {r : Registry κ} (h : AfterCalls cs r)
    (hkeys : ∀ c ∈ cs, c.HasTwoKeysEach) :
    (r.known.Nodup ∧ r.known = cs.flatMap fun c => c.rules.flatMap fun rule => [rule.name, rule.id]) ∧
      (∀ (i : Nat) (c : CheckerEntry κ) (rule : Rule), cs[i]? = some c → rule ∈ c.rules →
        ∀ key, key = rule.name ∨ key = rule.id → r.find? key = some (⟨i, rule.name⟩, c, rule)) ∧
      ∀ (s : Selection) (c : CheckerEntry κ),
        ((∃ what key earlier, (r.register s c).2 = .error (.duplicatedRule what key c.title earlier)) ↔
          Rule.BringTaken r.known c.rules) ∧
        ((r.register s c).2 = .ok () ↔ ¬ Rule.BringTaken r.known c.rules) := by
  obtain ⟨rfl, hnodup⟩ := h.eq_ofCheckers hkeys
  refine ⟨⟨(known_ofCheckers cs).symm ▸ hnodup, known_ofCheckers cs⟩, ?_, ?_⟩
  · intro i c rule hc hrule key hkey
    exact find?_ofCheckers hnodup hc hrule hkey
  · intro s c
    rcases register_cases (ofCheckers cs) s c with ⟨htaken, what, key, earlier, h⟩ | ⟨hfree, h⟩
    · refine ⟨iff_of_true ⟨what, key, earlier, h⟩ htaken, ?_⟩
      rw [h]
      exact iff_of_false (by simp) fun hfree => hfree htaken
    · refine ⟨?_, iff_of_true h hfree⟩
      rw [h]
      exact iff_of_false (by simp) hfree

def defining (title : String) (rules : List (String × String)) : CheckerEntry Reading :=
  ⟨.document, title, rules.map fun (id, name) => ⟨id, name, "", .warning, [], true⟩, [], false, []⟩

/-- Two checkers are registered, and a third one is refused for a rule whose name is the id of a rule of
the first one. -/
theorem table_unambiguous_idForName :
    ∃ r : Registry Reading, ∃ cs, AfterCalls cs r ∧ (∀ c ∈ cs, c.HasTwoKeysEach) ∧
      r.known = ["some-message", "0101", "other-message", "0102", "third-message", "0201"] ∧
      (r.find? "0102").map (·.1) = some ⟨0, "other-message"⟩ ∧
      ∃ what key earlier, (r.register .everything (defining "Third" [("0301", "0102")])).2 =
        .error (.duplicatedRule what key "Third" earlier) := by
  have hcalls : AfterCalls _ _ :=
    .call .everything (defining "Second" [("0201", "third-message")])
      (.call .everything (defining "First" [("0101", "some-message"), ("0102", "other-message")]) .start rfl)
      rfl
  have hkeys : ∀ c ∈ [(defining "First" [("0101", "some-message"), ("0102", "other-message")]).select
        .everything, (defining "Second" [("0201", "third-message")]).select .everything],
      c.HasTwoKeysEach := by
    unfold CheckerEntry.HasTwoKeysEach
    decide
  obtain ⟨⟨-, hknown⟩, hfind, hnext⟩ := table_unambiguous hcalls hkeys
  refine ⟨_, _, hcalls, hkeys, hknown, ?_, ?_⟩
  · rw [hfind 0 _ ⟨"0102", "other-message", "", .warning, [], true⟩ rfl (by decide) "0102" (Or.inr rfl)]
    rfl
  · refine (hnext .everything (defining "Third" [("0301", "0102")])).1.mpr ?_
    exact ⟨[], _, [], rfl, "0102", Or.inl rfl, Or.inl (by decide)⟩

end Registry

end SuiteLint
