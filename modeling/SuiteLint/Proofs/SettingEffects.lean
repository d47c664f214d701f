import SuiteLint.Proofs.RegistryLoading

/-!
# What settings change

The settings of `--configure` change the severities of rules and the values of parameters, and nothing else:
neither which rules are on, nor which checkers are registered.
-/

namespace SuiteLint

/-- What settings can change. -/
structure Tuning where
  severity : RuleKey → Severity
  values : Checker → Values

def Tuning.start : Tuning := ⟨RuleKey.severity, Checker.defaults⟩

/-- A rule that is on or off, with its severity. -/
def RuleKey.tuned (key : RuleKey) (on : RuleKey → Bool) (t : Tuning) : Rule :=
  { key.rule with severity := t.severity key, enabled := on key }

/-- A checker whose rules are on or off, with their severities and values. -/
def Checker.tuned (c : Checker) (host : Host) (on : RuleKey → Bool) (t : Tuning) :
    CheckerEntry Checker :=
  ⟨c, c.title, c.keys.map (·.tuned on t), t.values c, !c.suits host.modern || !c.keys.any on, []⟩

/-- All checkers with their rules. -/
def Registry.tuned (host : Host) (on : RuleKey → Bool) (t : Tuning) : Registry Checker :=
  .ofCheckers (host.checkers.map (·.tuned host on t))

/-- The rules that a selection admits before any configuration. -/
def Selection.picks (s : Selection) (key : RuleKey) : Bool := s.admits key.rule

private theorem Linter.select_entry (s : Selection) (host : Host) (c : Checker) :
    (entry host c).select s = c.tuned host s.picks .start := by
  simp only [CheckerEntry.select, entry, List.map_map, List.any_map]
  rfl

theorem Linter.load_tuned (s : Selection) (host : Host) :
    load s host = .ok ⟨host, .tuned host s.picks .start, .blank⟩ := by
  simp only [load_eq, select_entry, Registry.tuned]

/-! ## Finding a rule by name or id -/

def Checker.directory : List (String × Checker × RuleKey) :=
  Checker.all.flatMap fun c => c.keys.flatMap fun key => [(key.name, c, key), (key.id, c, key)]

/-- The rule of a name or id, and its checker. -/
def Checker.owner? (name : String) : Option (Checker × RuleKey) := Checker.directory.lookup name

def RuleKey.IsCalled (key : RuleKey) (name : String) : Prop := name = key.name ∨ name = key.id

@[simp] theorem Checker.mem_directory {name : String} {c : Checker} {key : RuleKey} :
    (name, c, key) ∈ directory ↔ c ∈ all ∧ key ∈ c.keys ∧ key.IsCalled name := by
  simp only [directory, List.mem_flatMap, List.mem_cons, List.not_mem_nil, or_false, Prod.mk.injEq,
    RuleKey.IsCalled]
  constructor
  · rintro ⟨d, hd, key', hk, ⟨rfl, rfl, rfl⟩ | ⟨rfl, rfl, rfl⟩⟩
    · exact ⟨hd, hk, Or.inl rfl⟩
    · exact ⟨hd, hk, Or.inr rfl⟩
  · rintro ⟨hc, hk, rfl | rfl⟩
    · exact ⟨c, hc, key, hk, Or.inl ⟨rfl, rfl, rfl⟩⟩
    · exact ⟨c, hc, key, hk, Or.inr ⟨rfl, rfl, rfl⟩⟩

theorem Checker.directory_nodup : (directory.map (·.1)).Nodup := by
  have h := labels_nodup
  simpa [directory, List.map_flatMap] using h

theorem Checker.owner?_eq_some_iff {name : String} {c : Checker} {key : RuleKey} :
    owner? name = some (c, key) ↔ c ∈ all ∧ key ∈ c.keys ∧ key.IsCalled name := by
  rw [owner?, Lookup.eq_some_iff_mem directory_nodup, mem_directory]

theorem Checker.eq_of_isCalled {name : String} {c d : Checker} {key other : RuleKey} (hc : c ∈ all)
    (hd : d ∈ all) (hk : key ∈ c.keys) (ho : other ∈ d.keys) (h : key.IsCalled name)
    (h' : other.IsCalled name) : c = d ∧ key = other := by
  have h₁ := owner?_eq_some_iff.mpr ⟨hc, hk, h⟩
  have h₂ := owner?_eq_some_iff.mpr ⟨hd, ho, h'⟩
  simpa using h₁.symm.trans h₂

@[simp] theorem Checker.mem_all (c : Checker) : c ∈ all := by cases c <;> decide

private theorem Checker.all_nodup : all.Nodup := by decide

theorem Checker.find?_keys {c : Checker} {key : RuleKey} (h : key ∈ c.keys) :
    c.keys.find? (·.name = key.name) = some key := by
  cases hfind : c.keys.find? (·.name = key.name) with
  | none => simpa using List.find?_eq_none.mp hfind key h
  | some other =>
    have hname : other.name = key.name := by simpa using List.find?_some hfind
    have ho := List.mem_of_find?_eq_some hfind
    rw [(eq_of_isCalled c.mem_all c.mem_all ho h (Or.inl hname.symm) (Or.inl rfl)).2]

namespace Host

variable (host : Host)

/-- The names and ids of the rules, as they are registered. -/
def directory : List (String × Checker × RuleKey) :=
  host.checkers.flatMap fun c => c.keys.flatMap fun key => [(key.name, c, key), (key.id, c, key)]

def known : List String := host.directory.map (·.1)

theorem directory_perm : host.directory.Perm Checker.directory := host.checkers_perm.flatMap_right _

@[simp] theorem mem_known {name : String} : name ∈ host.known ↔ name ∈ Checker.directory.map (·.1) :=
  (host.directory_perm.map _).mem_iff

@[simp] theorem mem_checkers (c : Checker) : c ∈ host.checkers := host.checkers_perm.mem_iff.mpr c.mem_all

theorem checkers_nodup : host.checkers.Nodup := host.checkers_perm.nodup_iff.mpr Checker.all_nodup

/-- A rule has one owner, wherever its checker stands. -/
@[simp] theorem lookup_directory (name : String) : host.directory.lookup name = Checker.owner? name := by
  have hnodup : (host.directory.map (·.1)).Nodup :=
    (host.directory_perm.map _).nodup_iff.mpr Checker.directory_nodup
  ext found
  rw [Checker.owner?, Lookup.eq_some_iff_mem hnodup,
    Lookup.eq_some_iff_mem Checker.directory_nodup, host.directory_perm.mem_iff]

theorem zipIdx_checkers : host.checkers.zipIdx = host.checkers.map fun c => (c, host.checkers.idxOf c) := by
  apply List.ext_getElem
  · simp
  · intro i hi _
    have hidx := host.checkers_nodup.idxOf_getElem i (by simpa using hi)
    simp [hidx]

end Host

namespace Registry

variable (host : Host) (on : RuleKey → Bool) (t : Tuning)

theorem table_tuned :
    (tuned host on t).table =
      host.directory.map fun entry =>
        (entry.1, ⟨host.checkers.idxOf entry.2.1, entry.2.2.name⟩) := by
  simp only [tuned, ofCheckers, tableFrom, List.zipIdx_map, host.zipIdx_checkers, Host.directory,
    List.map_flatMap, List.flatMap_map, Prod.map, id, Checker.tuned]
  rfl

@[simp] theorem known_tuned : (tuned host on t).known = host.known := by
  simp [known, Host.known, table_tuned]

@[simp] theorem active_tuned :
    (tuned host on t).active = host.checkers.map (·.tuned host on t) := active_ofCheckers _

@[simp] theorem tags_tuned (cs : List Checker) :
    (cs.map (·.tuned host on t)).map (·.tag) = cs := by
  simp [Checker.tuned, Function.comp_def]

theorem ruleNamed?_tuned (c : Checker) (name : String) :
    (c.tuned host on t).ruleNamed? name =
      (c.keys.find? (·.name = name)).map (·.tuned on t) := by
  simp only [CheckerEntry.ruleNamed?, Checker.tuned, List.find?_map]
  rfl

/-- A rule is found by its name and by its id, with its severity and the values of its checker. -/
theorem find?_tuned (name : String) :
    (tuned host on t).find? name =
      (Checker.owner? name).map fun found =>
        (⟨host.checkers.idxOf found.1, found.2.name⟩, found.1.tuned host on t,
          found.2.tuned on t) := by
  unfold find?
  rw [table_tuned, Lookup.lookup_map fun _ (found : Checker × RuleKey) =>
    (⟨host.checkers.idxOf found.1, found.2.name⟩ : RuleRef), host.lookup_directory]
  cases howner : Checker.owner? name with
  | none => rfl
  | some found =>
    obtain ⟨c, key⟩ := found
    have hkey := (Checker.owner?_eq_some_iff.mp howner).2.1
    have hplace : (tuned host on t).checkers[host.checkers.idxOf c]? = some (c.tuned host on t) := by
      have hlt := List.idxOf_lt_length_iff.mpr (host.mem_checkers c)
      simp [tuned, ofCheckers, List.getElem?_eq_getElem hlt]
    simp only [Option.map_some, Option.bind_eq_bind, Option.bind_some, hplace,
      ruleNamed?_tuned, Checker.find?_keys hkey, Option.pure_def]

end Registry

/-! ## Settings as changes of the tuning -/

theorem map_eq_ok_iff {ε α β : Type} {x : Except ε α} {f : α → β} {b : β} :
    x.map f = .ok b ↔ ∃ a, x = .ok a ∧ f a = b := by
  cases x <;> simp [Except.map]

namespace Tuning

def grade (t : Tuning) (key : RuleKey) (s : Severity) : Tuning :=
  { t with severity := fun other => if other = key then s else t.severity other }

def assign (t : Tuning) (c : Checker) (slot : String) (v : ParamValue) : Tuning :=
  { t with values := fun other => if other = c then (t.values c).set slot v else t.values other }

/-- Sets the severity or a parameter of a rule. -/
def tune (t : Tuning) (name param value : String) (c : Checker) (key : RuleKey) :
    Except LintError Tuning :=
  if param = "severity" then
    match Severity.ofSetting? value with
    | some s => .ok (t.grade key s)
    | none => .error (.invalidSeverity key.name value)
  else match key.rule.param? param with
    | none => .error (.unknownParam param name (key.rule.configurables true (t.values c)))
    | some p =>
      match p.kind.read value with
      | .error e => .error (.invalidValue e)
      | .ok v => .ok (t.assign c p.slot v)

def configure (t : Tuning) (host : Host) (reports : Reports) (setting : String) :
    Except LintError (Tuning × Reports) :=
  match Registry.splitSetting setting with
  | none => .error (.invalidSetting setting)
  | some (target, param, value) =>
    match Checker.owner? target with
    | some (c, key) => (t.tune target param value c key).map fun t => (t, reports)
    | none =>
      match reports.find? target with
      | some k => (reports.configure k param value).map fun reports => (t, reports)
      | none => .error (.unknownTarget target (Suggestion.hint target host.known))

def configureAll (t : Tuning) (host : Host) (reports : Reports) :
    List String → Except LintError (Tuning × Reports)
  | [] => .ok (t, reports)
  | setting :: settings =>
    match t.configure host reports setting with
    | .ok (t, reports) => t.configureAll host reports settings
    | .error e => .error e

theorem tune_eq_ok_iff {t t' : Tuning} {name param value : String} {c : Checker} {key : RuleKey} :
    t.tune name param value c key = .ok t' ↔
      (param = "severity" ∧ ∃ s, Severity.ofSetting? value = some s ∧ t' = t.grade key s) ∨
      (param ≠ "severity" ∧ ∃ p v, key.rule.param? param = some p ∧ p.kind.read value = .ok v ∧
        t' = t.assign c p.slot v) := by
  unfold tune
  split
  · next hparam => cases Severity.ofSetting? value <;> simp [hparam, eq_comm]
  · next hparam =>
    cases key.rule.param? param with
    | none => simp [hparam]
    | some p => cases hread : p.kind.read value <;> simp [hparam, hread, eq_comm]

/-- A setting is accepted if the rule that it names takes it or, where it names none, a report. -/
theorem configure_eq_ok_iff {t t' : Tuning} {host : Host} {reports more : Reports} {setting : String} :
    t.configure host reports setting = .ok (t', more) ↔
      ∃ target param value, Registry.splitSetting setting = some (target, param, value) ∧
        ((∃ c key, Checker.owner? target = some (c, key) ∧ t.tune target param value c key = .ok t' ∧
            more = reports) ∨
          Checker.owner? target = none ∧ t' = t ∧
            ∃ k, reports.find? target = some k ∧ reports.configure k param value = .ok more) := by
  unfold configure
  constructor
  · intro h
    split at h
    · cases h
    · next target param value hsplit =>
      refine ⟨target, param, value, hsplit, ?_⟩
      split at h
      · next c key howner =>
        obtain ⟨t', htune, heq⟩ := map_eq_ok_iff.mp h
        obtain ⟨rfl, rfl⟩ := Prod.mk.inj heq
        exact Or.inl ⟨c, key, howner, htune, rfl⟩
      · next howner =>
        split at h
        · next k hk =>
          obtain ⟨more, hset, heq⟩ := map_eq_ok_iff.mp h
          obtain ⟨rfl, rfl⟩ := Prod.mk.inj heq
          exact Or.inr ⟨howner, rfl, k, hk, hset⟩
        · cases h
  · rintro ⟨target, param, value, hsplit, ⟨c, key, howner, htune, rfl⟩ | ⟨howner, rfl, k, hk, hset⟩⟩
    · simp only [hsplit, howner, htune]
      rfl
    · simp only [hsplit, howner, hk, hset]
      rfl

theorem configureAll_cons_eq_ok_iff {t t' : Tuning} {host : Host} {reports more : Reports}
    {setting : String} {settings : List String} :
    t.configureAll host reports (setting :: settings) = .ok (t', more) ↔
      ∃ t₁ reports₁, t.configure host reports setting = .ok (t₁, reports₁) ∧
        t₁.configureAll host reports₁ settings = .ok (t', more) := by
  rw [configureAll]
  rcases t.configure host reports setting with e | ⟨t₁, reports₁⟩ <;> simp [and_assoc]

end Tuning

private theorem modify_map_idxOf {α β : Type} [DecidableEq α] (xs : List α) (hn : xs.Nodup) (x : α)
    (f : α → β) (g : β → β) :
    (xs.map f).modify (xs.idxOf x) g = xs.map fun y => if y = x then g (f y) else f y := by
  induction xs with
  | nil => simp
  | cons y ys ih =>
    rw [List.nodup_cons] at hn
    by_cases h : y = x
    · subst h
      have hrest : ∀ z ∈ ys, (if z = y then g (f z) else f z) = f z := by
        intro z hz
        have hz' : z ≠ y := fun he => hn.1 (he ▸ hz)
        rw [if_neg hz']
      simp [List.map_congr_left hrest]
    · have hy : (y == x) = false := beq_eq_false_iff_ne.mpr h
      rw [List.idxOf_cons, hy, cond_false, List.map_cons, List.modify_succ_cons, ih hn.2,
        List.map_cons, if_neg h]

namespace Registry

variable (host : Host) (on : RuleKey → Bool) (t : Tuning)

theorem modifyChecker_tuned (c : Checker) (f : CheckerEntry Checker → CheckerEntry Checker)
    (t' : Tuning) (hc : f (c.tuned host on t) = c.tuned host on t')
    (hrest : ∀ d, d ≠ c → d.tuned host on t = d.tuned host on t') :
    (tuned host on t).modifyChecker (host.checkers.idxOf c) f = tuned host on t' := by
  have hcheckers : (tuned host on t).checkers.modify (host.checkers.idxOf c) f =
      (tuned host on t').checkers := by
    simp only [tuned, ofCheckers, modify_map_idxOf _ host.checkers_nodup]
    apply List.map_congr_left
    intro d _
    split
    · next h => rw [h, hc]
    · next h => exact hrest d h
  have htable : (tuned host on t).table = (tuned host on t').table := by simp only [table_tuned]
  have hregistered : (tuned host on t).registered = (tuned host on t').registered := by
    simp [tuned, ofCheckers]
  simp only [modifyChecker, hcheckers, htable, hregistered]

theorem modifyRule_tuned (c : Checker) (key : RuleKey) (h : key ∈ c.keys) (s : Severity) :
    (tuned host on t).modifyRule ⟨host.checkers.idxOf c, key.name⟩
        (fun rule => { rule with severity := s }) =
      tuned host on (t.grade key s) := by
  apply modifyChecker_tuned
  · simp only [Checker.tuned, List.map_map, Tuning.grade]
    congr 1
    apply List.map_congr_left
    intro other ho
    by_cases hk : other = key
    · subst hk
      simp [RuleKey.tuned, RuleKey.rule]
    · have hname : other.name ≠ key.name := fun he =>
        hk (Checker.eq_of_isCalled c.mem_all c.mem_all ho h (Or.inl he.symm) (Or.inl rfl)).2
      simp [RuleKey.tuned, RuleKey.rule, hk, hname]
  · intro d hd
    simp only [Checker.tuned, Tuning.grade]
    congr 1
    apply List.map_congr_left
    intro other ho
    have hk : other ≠ key := by
      rintro rfl
      exact hd (Checker.eq_of_isCalled d.mem_all c.mem_all ho h (Or.inl rfl) (Or.inl rfl)).1
    simp [RuleKey.tuned, hk]

theorem assign_tuned (c : Checker) (slot : String) (v : ParamValue) :
    (tuned host on t).modifyChecker (host.checkers.idxOf c)
        (fun entry => { entry with values := entry.values.set slot v }) =
      tuned host on (t.assign c slot v) := by
  apply modifyChecker_tuned
  · simp only [Checker.tuned, Tuning.assign, if_pos]
    rfl
  · intro d hd
    simp only [Checker.tuned, Tuning.assign, if_neg hd]
    rfl

/-- A setting of a rule changes the tuning only, and fails alike for any selection. -/
theorem configureRule_tuned (name param value : String) (c : Checker) (key : RuleKey)
    (h : key ∈ c.keys) :
    (tuned host on t).configureRule name param value ⟨host.checkers.idxOf c, key.name⟩
        (c.tuned host on t) (key.tuned on t) =
      (t.tune name param value c key).map (tuned host on) := by
  unfold configureRule Tuning.tune
  by_cases hparam : param = "severity"
  · simp only [if_pos hparam]
    cases Severity.ofSetting? value with
    | none => rfl
    | some s =>
      simp only [modifyRule_tuned host on t c key h]
      rfl
  · simp only [if_neg hparam]
    rw [show (key.tuned on t).param? param = key.rule.param? param from rfl]
    cases key.rule.param? param with
    | none => rfl
    | some p =>
      simp only
      cases p.kind.read value with
      | error e => rfl
      | ok v =>
        simp only [assign_tuned]
        rfl

theorem configure_tuned (reports : Reports) (setting : String) :
    (tuned host on t).configure reports setting =
      (t.configure host reports setting).map fun p => (tuned host on p.1, p.2) := by
  unfold configure Tuning.configure
  cases splitSetting setting with
  | none => rfl
  | some parts =>
    obtain ⟨target, param, value⟩ := parts
    simp only [find?_tuned]
    cases howner : Checker.owner? target with
    | none =>
      simp only [Option.map_none, known_tuned]
      cases reports.find? target with
      | none => rfl
      | some k =>
        cases hreports : reports.configure k param value <;> simp [hreports] <;> rfl
    | some found =>
      obtain ⟨c, key⟩ := found
      have hkey := (Checker.owner?_eq_some_iff.mp howner).2.1
      simp only [Option.map_some, configureRule_tuned host on t target param value c key hkey]
      cases t.tune target param value c key <;> rfl

/-- Settings change the tuning only, and whether they are accepted depends on nothing else. -/
theorem configureAll_tuned (reports : Reports) (settings : List String) :
    (tuned host on t).configureAll reports settings =
      (t.configureAll host reports settings).map fun p => (tuned host on p.1, p.2) := by
  induction settings generalizing t reports with
  | nil => rfl
  | cons setting settings ih =>
    rw [configureAll, configure_tuned, Tuning.configureAll]
    cases t.configure host reports setting with
    | error e => rfl
    | ok p => exact ih p.1 p.2

end Registry

/-! ## The linter of options -/

@[simp] theorem Selection.Walk.visits_nil (walk : Walk) : walk.visits [] = [] := by
  cases hvisits : walk.visits [] with
  | nil => rfl
  | cons name later =>
    have hmet := walk.isMet []
    rw [hvisits] at hmet
    cases hmet.1

theorem Selection.validate_everything (walk : Walk) (known : List String) :
    everything.validate walk known = ([], .ok everything) := by
  have hnone : walk.visits everything.included = [] := walk.visits_nil
  have hnone' : walk.visits everything.excluded = [] := walk.visits_nil
  simp only [validate, hnone, review, hnone', List.append_nil]

namespace Options

private theorem configure_tuned (o : Options) (host : Host) (on : RuleKey → Bool) :
    o.configure ⟨host, .tuned host on .start, .blank⟩ =
      (Tuning.start.configureAll host (.ofNames o.reports) o.settings).map fun p =>
        ⟨⟨host, .tuned host on p.1, .blank⟩, p.2⟩ := by
  unfold configure
  rw [Registry.configureAll_tuned]
  cases Tuning.start.configureAll host (.ofNames o.reports) o.settings <;> rfl

theorem setup_eq (o : Options) (host : Host) :
    o.setup host =
      ((o.selection.validate host.walk host.known).1,
        (o.selection.validate host.walk host.known).2.bind fun _ =>
          o.configure ⟨host, .tuned host o.selection.picks .start, .blank⟩) := by
  rw [setup, Options.linter, Linter.load_tuned, reviewed, Registry.known_tuned]
  rcases o.selection.validate host.walk host.known with ⟨notes, e | names⟩ <;> rfl

/-- Accepted options lead to a linter whose selection and settings do not touch each other. -/
theorem setup_ok_iff {o : Options} {host : Host} {notes : List String} {s : Setup} :
    o.setup host = (notes, .ok s) ↔
      (∃ names, o.selection.validate host.walk host.known = (notes, .ok names)) ∧
      ∃ t, Tuning.start.configureAll host (.ofNames o.reports) o.settings = .ok (t, s.reports) ∧
        s.linter = ⟨host, .tuned host o.selection.picks t, .blank⟩ := by
  obtain ⟨linter, reports⟩ := s
  rw [setup_eq, configure_tuned]
  rcases o.selection.validate host.walk host.known with ⟨found, e | names⟩
  · simp [Except.bind]
  · cases Tuning.start.configureAll host (.ofNames o.reports) o.settings with
    | error e => simp [Except.bind, Except.map]
    | ok p =>
      obtain ⟨t, more⟩ := p
      simp only [Except.bind, Except.map, Prod.mk.injEq, Except.ok.injEq, Setup.mk.injEq]
      constructor
      · rintro ⟨rfl, rfl, rfl⟩
        exact ⟨⟨names, rfl, rfl⟩, t, ⟨rfl, rfl⟩, rfl⟩
      · rintro ⟨⟨_, rfl, -⟩, t', ⟨rfl, rfl⟩, rfl⟩
        exact ⟨rfl, rfl, rfl⟩

theorem setup_standard (host : Host) :
    standard.setup host =
      ([], .ok ⟨⟨host, .tuned host standard.selection.picks .start, .blank⟩,
        .ofNames ["return_status"]⟩) := by
  rw [setup_ok_iff]
  exact ⟨⟨.everything, Selection.validate_everything ..⟩, .start, rfl, rfl⟩

end Options

end SuiteLint
