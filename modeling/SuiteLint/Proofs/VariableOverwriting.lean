import SuiteLint.Proofs.RepeatedTargets

/-!
# Variables that overwrite similar ones

A target is reported (0316) if an earlier variable has its compared form and none is written like it. This is
what is due for the names and spellings alone, unless something follows the variables.
-/

namespace SuiteLint

/-! ## Variables that come into use -/

namespace Node

def isDefinition (n : Node) : Bool := n.isBlockWith Check.Documentation.isDefinition

def arguments (n : Node) : List Token :=
  ((n.body.filterMap statement?).filter (·.kind = .arguments)).flatMap (·.tokensOf .argument)

/-- The variables that come into use where a node is visited: the targets of a call, and the variables of a
FOR. -/
def introduces : Node → List Token
  | .leaf st => if st.kind = .keywordCall then st.tokensOf .assign else []
  | .block .for_ header .. | .block .forLoop header .. => header.tokensOf .variableName
  | .block .. => []

def introduced (n : Node) : List Token := n.arguments ++ n.visited.tail.flatMap introduces

def ownerKind (n : Node) : String := if n.isBlock .testCase then "TestCase" else "Keyword"

end Node

/-- A definition, and what is visited from there up to the next one. -/
structure Run where
  definition : Node
  nodes : List Node

def Run.introduced (r : Run) : List Token := r.definition.arguments ++ r.nodes.flatMap Node.introduces

def cutRuns : List Node → List Node × List Run
  | [] => ([], [])
  | n :: ns =>
    if n.isDefinition then ([], ⟨n, (cutRuns ns).1⟩ :: (cutRuns ns).2)
    else (n :: (cutRuns ns).1, (cutRuns ns).2)

theorem cutRuns_append {plain : List Node} (h : ∀ n ∈ plain, n.isDefinition = false) (ns : List Node) :
    cutRuns (plain ++ ns) = (plain ++ (cutRuns ns).1, (cutRuns ns).2) := by
  induction plain with
  | nil => rfl
  | cons n plain ih =>
    rw [List.forall_mem_cons] at h
    rw [List.cons_append, cutRuns, if_neg (Bool.eq_false_iff.mp h.1), ih h.2]
    rfl

theorem cutRuns_plain (ns : List Node) : ∀ n ∈ (cutRuns ns).1, n.isDefinition = false := by
  induction ns with
  | nil => simp [cutRuns]
  | cons n ns ih =>
    rw [cutRuns]
    split
    · exact fun m hm => absurd hm List.not_mem_nil
    · next hn => exact List.forall_mem_cons.mpr ⟨Bool.eq_false_iff.mpr hn, ih⟩

theorem mem_cutRuns {n : Node} (h : n.isDefinition = true) (before after : List Node) :
    ⟨n, (cutRuns after).1⟩ ∈ (cutRuns (before ++ n :: after)).2 := by
  induction before with
  | nil =>
    rw [List.nil_append, cutRuns, if_pos h]
    exact List.mem_cons_self
  | cons m before ih =>
    rw [List.cons_append, cutRuns]
    split
    · exact List.mem_cons_of_mem _ ih
    · exact ih

namespace Node

theorem infix_visited_of_leaf {st : Statement} {nodes : List Node} (h : .leaf st ∈ nodes) :
    (leaf st).visited <:+: nodes := by
  obtain ⟨before, after, rfl⟩ := List.append_of_mem h
  exact ⟨before, after, by simp [visited, visitedUntil]⟩

mutual

/-- What lies below a node is visited without a break. -/
theorem infix_visited : ∀ {m n : Node}, n ∈ m.visited → n.visited <:+: m.visited
  | .leaf st, n, h => by
    obtain rfl := List.mem_singleton.mp h
    exact List.infix_rfl
  | .block kind header body orelse close errors, n, h => by
    rw [visited_block] at h
    rcases List.mem_cons.mp h with rfl | h
    · exact List.infix_rfl
    · rw [visited_block]
      refine List.infix_cons ?_
      rcases List.mem_cons.mp h with rfl | h
      · exact infix_visited_of_leaf List.mem_cons_self
      · refine List.infix_cons ?_
        rcases List.mem_append.mp h with h | hclose
        · rcases List.mem_append.mp h with hbody | horelse
          · rw [List.append_assoc]
            exact (infix_visitedAll hbody).trans (List.prefix_append _ _).isInfix
          · exact (infix_visitedBranch horelse).trans ⟨_, _, rfl⟩
        · obtain ⟨st, -, rfl⟩ := List.mem_map.mp hclose
          exact (infix_visited_of_leaf hclose).trans (List.suffix_append _ _).isInfix

private theorem infix_visitedAll : ∀ {ns : List Node} {n : Node}, n ∈ visitedUntilAll (fun _ => false) ns →
    n.visited <:+: visitedUntilAll (fun _ => false) ns
  | m :: ns, n, h => by
    rcases List.mem_append.mp h with h | h
    · exact (infix_visited h).trans (List.prefix_append _ _).isInfix
    · exact (infix_visitedAll h).trans (List.suffix_append _ _).isInfix

private theorem infix_visitedBranch : ∀ {m : Option Node} {n : Node},
    n ∈ visitedUntilBranch (fun _ => false) m → n.visited <:+: visitedUntilBranch (fun _ => false) m
  | some _, _, h => infix_visited h

end

end Node

theorem Document.infix_visited {d : Document} {n : Node} (h : n ∈ d.visited) :
    n.visited <:+: d.visited := by
  obtain ⟨s, hs, hn⟩ := List.mem_flatMap.mp h
  have hsection : n.visited <:+: s.visited := by
    rcases List.mem_append.mp hn with hheader | hbody
    · obtain ⟨st, -, rfl⟩ := List.mem_map.mp hheader
      exact Node.infix_visited_of_leaf hn
    · exact (Node.infix_visitedAll hbody).trans (List.suffix_append _ _).isInfix
  obtain ⟨before, after, hsections⟩ := List.append_of_mem hs
  refine hsection.trans ⟨before.flatMap Section.visited, after.flatMap Section.visited, ?_⟩
  rw [Document.visited, hsections]
  simp

def Document.runs (d : Document) : List Run := (cutRuns d.visited).2

/-- A definition has its run, which starts with all that lies below it where no other definition does. -/
theorem Document.exists_run {d : Document} {n : Node} (hmem : n ∈ d.visited) (hn : n.isDefinition = true)
    (hplain : ∀ m ∈ n.visited.tail, m.isDefinition = false) :
    ∃ r ∈ d.runs, r.definition = n ∧ n.introduced <+: r.introduced := by
  obtain ⟨before, after, hvisited⟩ := d.infix_visited hmem
  have hrun := mem_cutRuns hn before (n.visited.tail ++ after)
  rw [← List.cons_append, ← n.visited_eq_cons, ← List.append_assoc, hvisited,
    cutRuns_append hplain] at hrun
  refine ⟨_, hrun, rfl, ?_⟩
  rw [Node.introduced, Run.introduced, List.flatMap_append, ← List.append_assoc]
  exact List.prefix_append _ _

/-! ## What is known of them -/

namespace Check.Variable.Scope

/-- The compared forms and spellings of a scope are those of the given variables. -/
structure Knows (s : Scope) (vs : List String) : Prop where
  form : ∀ form, (s.known.lookup form).isSome = true ↔ ∃ v ∈ vs, Name.normalizedVariable v = form
  spelling : ∀ form v, v ∈ (s.known.lookup form).getD [] ↔ v ∈ vs ∧ Name.normalizedVariable v = form

theorem lookup_entry (key form : String) (names : List String) (known : List (String × List String)) :
    ((form, names) :: known).lookup key = if key = form then some names else known.lookup key := by
  rw [List.lookup_cons]
  by_cases h : key = form
  · rw [if_pos h, beq_iff_eq.mpr h]
  · rw [if_neg h, beq_eq_false_iff_ne.mpr h]

theorem lookup_map_entry (form key : String) (names : List String)
    (known : List (String × List String)) :
    (known.map fun entry => if entry.1 = form then (form, names) else entry).lookup key =
      if key = form then (known.lookup form).map fun _ => names else known.lookup key := by
  induction known with
  | nil => simp
  | cons entry known ih =>
    obtain ⟨k, old⟩ := entry
    rw [List.map_cons, lookup_entry, lookup_entry]
    by_cases hk : k = form
    · rw [if_pos hk, lookup_entry, if_pos hk.symm, ih, hk]
      split <;> rfl
    · rw [if_neg hk, lookup_entry, if_neg (Ne.symm hk), ih]
      by_cases hkey : key = form
      · rw [if_pos hkey, if_pos hkey, if_neg (hkey ▸ Ne.symm hk)]
      · rw [if_neg hkey, if_neg hkey]

theorem lookup_learn (s : Scope) (name form : String) :
    (s.learn name).known.lookup form =
      if form = Name.normalizedVariable name then
        some (name :: (s.known.lookup (Name.normalizedVariable name)).getD [])
      else s.known.lookup form := by
  simp only [learn]
  split
  · next names h =>
    rw [lookup_map_entry, h]
    rfl
  · next h =>
    rw [lookup_entry, h]
    rfl

private theorem owner_learn (s : Scope) (name : String) :
    (s.learn name).owner = s.owner ∧ (s.learn name).ownerKind = s.ownerKind := by
  simp only [learn]
  split <;> exact ⟨rfl, rfl⟩

theorem Knows.learn {s : Scope} {vs : List String} (h : s.Knows vs) (name : String) :
    (s.learn name).Knows (vs ++ [name]) := by
  constructor
  · intro form
    rw [lookup_learn]
    split
    · next hform => simp [hform]
    · next hform =>
      rw [h.form]
      simp [Ne.symm hform]
  · intro form v
    rw [lookup_learn, List.mem_append, List.mem_singleton]
    by_cases hform : form = Name.normalizedVariable name
    · rw [if_pos hform, Option.getD_some, List.mem_cons, h.spelling, hform]
      constructor
      · rintro (rfl | ⟨hv, hsame⟩)
        · exact ⟨Or.inr rfl, rfl⟩
        · exact ⟨Or.inl hv, hsame⟩
      · rintro ⟨hv | rfl, hsame⟩
        · exact Or.inr ⟨hv, hsame⟩
        · exact Or.inl rfl
    · rw [if_neg hform, h.spelling]
      constructor
      · exact fun ⟨hv, hsame⟩ => ⟨Or.inl hv, hsame⟩
      · rintro ⟨hv | rfl, hsame⟩
        · exact ⟨hv, hsame⟩
        · exact absurd hsame.symm hform

theorem Knows.learnAll {s : Scope} {vs : List String} (h : s.Knows vs) (names : List String) :
    (names.foldl Scope.learn s).Knows (vs ++ names) ∧ (names.foldl Scope.learn s).owner = s.owner ∧
      (names.foldl Scope.learn s).ownerKind = s.ownerKind := by
  induction names generalizing s vs with
  | nil => simpa using h
  | cons name names ih =>
    obtain ⟨hknows, howner, hkind⟩ := ih (h.learn name)
    rw [List.append_assoc] at hknows
    exact ⟨hknows, howner.trans (s.owner_learn name).1, hkind.trans (s.owner_learn name).2⟩

/-- A variable is taken for another one exactly if an earlier variable has its compared form and none is
written like it. -/
theorem Knows.resembles_iff {s : Scope} {vs : List String} (h : s.Knows vs) (name : String) :
    s.resembles name = true ↔
      (∃ v ∈ vs, Name.normalizedVariable v = Name.normalizedVariable name) ∧ name ∉ vs := by
  rw [← h.form, resembles, spellings]
  have hspelling := h.spelling (Name.normalizedVariable name) name
  cases hlookup : s.known.lookup (Name.normalizedVariable name) with
  | none => simp
  | some names => simpa [hlookup] using not_congr hspelling

end Check.Variable.Scope

/-! ## What is found in a run -/

/-- A target is taken for an earlier variable: one has its compared form, and none is written like it. -/
def Token.isTaken (before : List Token) (t : Token) : Bool :=
  t.kind = .assign &&
    (before.any (fun u => Name.normalizedVariable u.value = Name.normalizedVariable t.value) &&
      !before.any (fun u => u.value = t.value))

def Node.takenFinding (n : Node) (t : Token) : Finding :=
  found .possibleVariableOverwriting [.string t.value, nameDatum n.name?, .string n.ownerKind]
    t.line t.column

namespace Check.Variable.Scope

/-- The scope inside a definition after the given variables came into use. -/
structure Follows (s : Scope) (n : Node) (before : List Token) : Prop where
  knows : s.Knows (before.map Token.value)
  owner : s.owner = n.name?
  ownerKind : s.ownerKind = n.ownerKind

theorem Follows.learnAll {s : Scope} {n : Node} {before : List Token} (h : s.Follows n before)
    (ts : List Token) : ((ts.map Token.value).foldl Scope.learn s).Follows n (before ++ ts) := by
  obtain ⟨hknows, howner, hkind⟩ := h.knows.learnAll (ts.map Token.value)
  rw [← List.map_append] at hknows
  exact ⟨hknows, howner.trans h.owner, hkind.trans h.ownerKind⟩

private theorem Follows.resembles_eq {s : Scope} {n : Node} {before : List Token} (h : s.Follows n before)
    {t : Token} (ht : t.kind = .assign) : s.resembles t.value = t.isTaken before := by
  rw [Bool.eq_iff_iff, h.knows.resembles_iff]
  simp [Token.isTaken, ht]

theorem Follows.assign {s : Scope} {n : Node} {before : List Token} (h : s.Follows n before)
    {ts : List Token} (hts : ∀ t ∈ ts, t.kind = .assign) :
    (s.assign ts).1 = (pickedAfter Token.isTaken before ts).map n.takenFinding ∧
      (s.assign ts).2.Follows n (before ++ ts) := by
  induction ts generalizing s before with
  | nil => exact ⟨rfl, by simpa [Scope.assign] using h⟩
  | cons t ts ih =>
    rw [List.forall_mem_cons] at hts
    obtain ⟨hfound, hafter⟩ := ih (h.learnAll [t]) hts.2
    rw [List.append_assoc, List.singleton_append] at hafter
    refine ⟨?_, hafter⟩
    rw [pickedAfter, List.map_append, ← hfound, Scope.assign, h.resembles_eq hts.1, h.owner, h.ownerKind]
    cases t.isTaken before <;> rfl

theorem Follows.visit {s : Scope} {n : Node} {before : List Token} (h : s.Follows n before) {m : Node}
    (hm : m.isDefinition = false) :
    (s.visit m).1 = (pickedAfter Token.isTaken before m.introduces).map n.takenFinding ∧
      (s.visit m).2.Follows n (before ++ m.introduces) := by
  cases m with
  | leaf st =>
    rw [Scope.visit, Node.introduces]
    split
    · exact h.assign fun t ht => of_decide_eq_true (List.mem_filter.mp ht).2
    · exact ⟨rfl, by simpa using h⟩
  | block kind header body orelse close errors =>
    -- The variables of a loop come into use without a finding.
    have hloop : pickedAfter Token.isTaken before (header.tokensOf .variableName) = [] := by
      refine pickedAfter_eq_nil (fun before t ht => ?_) before
      have hkind : t.kind = .variableName := of_decide_eq_true (List.mem_filter.mp ht).2
      simp [Token.isTaken, hkind]
    cases kind with
    | testCase => cases hm
    | keyword => cases hm
    | if_ => exact ⟨rfl, by simpa [Scope.visit, Node.introduces] using h⟩
    | for_ =>
      rw [Node.introduces, hloop]
      exact ⟨rfl, h.learnAll (header.tokensOf .variableName)⟩
    | forLoop =>
      rw [Node.introduces, hloop]
      exact ⟨rfl, h.learnAll (header.tokensOf .variableName)⟩

theorem Follows.visitAll {s : Scope} {n : Node} {before : List Token} (h : s.Follows n before)
    {nodes : List Node} (hnodes : ∀ m ∈ nodes, m.isDefinition = false) :
    (s.visitAll nodes).1 =
      (pickedAfter Token.isTaken before (nodes.flatMap Node.introduces)).map n.takenFinding := by
  induction nodes generalizing s before with
  | nil => rfl
  | cons m nodes ih =>
    rw [List.forall_mem_cons] at hnodes
    obtain ⟨hfound, hafter⟩ := h.visit hnodes.1
    rw [List.flatMap_cons, pickedAfter_append, List.map_append, ← hfound, ← ih hafter hnodes.2]
    rfl

theorem enter_eq (kind : String) (n : Node) :
    enter kind n = (n.arguments.map Token.value).foldl learn ⟨[], n.name?, kind⟩ := by
  simp only [enter, Node.arguments]
  congr 1
  induction n.body with
  | nil => rfl
  | cons child children ih =>
    rw [List.flatMap_cons, ih]
    cases child with
    | leaf st =>
      by_cases hkind : st.kind = .arguments <;> simp [Node.statement?, Statement.valuesOf, hkind]
    | block kind header body orelse close errors => rfl

private theorem follows_enter (n : Node) : (enter n.ownerKind n).Follows n n.arguments := by
  have hstart : Follows ⟨[], n.name?, n.ownerKind⟩ n [] := ⟨⟨by simp, by simp⟩, rfl, rfl⟩
  rw [enter_eq]
  exact hstart.learnAll n.arguments

theorem visit_definition (s : Scope) {n : Node} (h : n.isDefinition = true) :
    s.visit n = ([], enter n.ownerKind n) := by
  cases n with
  | leaf st => cases h
  | block kind header body orelse close errors =>
    cases kind with
    | testCase => rfl
    | keyword => rfl
    | for_ => cases h
    | forLoop => cases h
    | if_ => cases h

theorem visitAll_run {r : Run} (hnodes : ∀ n ∈ r.nodes, n.isDefinition = false) :
    ((enter r.definition.ownerKind r.definition).visitAll r.nodes).1 =
      (pickedAfter Token.isTaken [] r.introduced).map r.definition.takenFinding := by
  have harguments : pickedAfter Token.isTaken [] r.definition.arguments = [] := by
    refine pickedAfter_eq_nil (fun before t ht => ?_) []
    obtain ⟨st, -, hst⟩ := List.mem_flatMap.mp ht
    have hkind : t.kind = .argument := of_decide_eq_true (List.mem_filter.mp hst).2
    simp [Token.isTaken, hkind]
  rw [(follows_enter r.definition).visitAll hnodes, Run.introduced, pickedAfter_append, harguments]
  rfl

theorem visitAll_eq (s : Scope) (ns : List Node) :
    (s.visitAll ns).1 = (s.visitAll (cutRuns ns).1).1 ++ (cutRuns ns).2.flatMap fun r =>
      (pickedAfter Token.isTaken [] r.introduced).map r.definition.takenFinding := by
  induction ns generalizing s with
  | nil => rfl
  | cons n ns ih =>
    have hstep (more : List Node) :
        (s.visitAll (n :: more)).1 = (s.visit n).1 ++ ((s.visit n).2.visitAll more).1 := rfl
    rw [hstep, ih, cutRuns]
    by_cases hn : n.isDefinition = true
    · rw [if_pos hn, List.flatMap_cons, ← visitAll_run (r := ⟨n, (cutRuns ns).1⟩) (cutRuns_plain ns),
        s.visit_definition hn]
      rfl
    · rw [if_neg hn, hstep, List.append_assoc]

end Check.Variable.Scope

/-! ## Names and spellings -/

namespace Token

def sameSpelling (t u : Token) : Bool := Name.variableSpelling t.value = Name.variableSpelling u.value

/-- The tokens that are variables. A text such as `name` or `${name` may stand as an argument or as the
variable of a FOR too. -/
def variablesIn (ts : List Token) : List Token := ts.filter (Name.IsVariable ·.value)

/-- A target overwrites a similar variable: an earlier one has its name, and none is spelled like it. -/
def overwrites (before : List Token) (t : Token) : Bool :=
  t.kind = .assign && ((variablesIn before).any (·.sameName t) && !(variablesIn before).any (·.sameSpelling t))

/-- Another token has the compared form of a target: a variable has its name and its ending, and a text
that is no variable happens to give the same. -/
def IsLikened (u t : Token) : Prop :=
  if Name.IsVariable u.value then u.sameName t = true ∧ Name.ending u.value = Name.ending t.value
  else Name.normalizedVariable u.value = Name.normalizedVariable t.value

/-- A target overwrites a similar variable, but nothing earlier is likened to it: all earlier variables of
its name have another ending. -/
def IsMissed (before : List Token) (t : Token) : Prop :=
  t.overwrites before = true ∧ ∀ u ∈ before, ¬ u.IsLikened t

/-- Something earlier is likened to a target that overwrites nothing. Either it is spelled like an earlier
variable, but only with something else behind it, or no earlier variable has its name. -/
def IsFalseAlarm (before : List Token) (t : Token) : Prop :=
  t.kind = .assign ∧ (∃ u ∈ before, u.IsLikened t) ∧
    (∀ u ∈ variablesIn before, u.sameSpelling t = true →
      Name.variableTail u.value ≠ Name.variableTail t.value) ∧
    ((∃ u ∈ variablesIn before, u.sameSpelling t = true) ∨ ∀ u ∈ variablesIn before, u.sameName t = false)

private theorem mem_variablesIn {ts : List Token} {u : Token} :
    u ∈ variablesIn ts ↔ u ∈ ts ∧ Name.IsVariable u.value := by
  simp [variablesIn]

private theorem isLikened_iff {t : Token} (h : Name.IsVariable t.value) (u : Token) :
    u.IsLikened t ↔ Name.normalizedVariable u.value = Name.normalizedVariable t.value := by
  unfold IsLikened
  split
  · next hu => rw [hu.normalizedVariable_eq_iff h, sameName, decide_eq_true_iff]
  · rfl

theorem isTaken_iff {t : Token} (h : Name.IsVariable t.value) (before : List Token) :
    t.isTaken before = true ↔ t.kind = .assign ∧ (∃ u ∈ before, u.IsLikened t) ∧
      ∀ u ∈ variablesIn before, u.sameSpelling t = true →
        Name.variableTail u.value ≠ Name.variableTail t.value := by
  have hfresh : (∀ u ∈ before, u.value ≠ t.value) ↔ ∀ u ∈ variablesIn before, u.sameSpelling t = true →
      Name.variableTail u.value ≠ Name.variableTail t.value := by
    simp only [mem_variablesIn, sameSpelling, decide_eq_true_iff]
    constructor
    · rintro hother u ⟨hu, hvariable⟩ hspelling htail
      exact hother u hu ((hvariable.eq_iff h).mpr ⟨hspelling, htail⟩)
    · intro hother u hu heq
      -- What is written like a variable is one.
      exact hother u ⟨hu, heq ▸ h⟩ (heq ▸ rfl) (heq ▸ rfl)
  simp only [← hfresh, isLikened_iff h]
  simp [isTaken]

theorem overwrites_iff {before : List Token} {t : Token} :
    t.overwrites before = true ↔ t.kind = .assign ∧ (∃ u ∈ variablesIn before, u.sameName t = true) ∧
      ∀ u ∈ variablesIn before, u.sameSpelling t = false := by
  simp [overwrites]

/-- What is taken for an earlier variable overwrites a similar one and conversely, but for targets that
are missed and for false alarms. -/
theorem isTaken_iff_overwrites_iff {t : Token} (h : Name.IsVariable t.value) (before : List Token) :
    (t.isTaken before = true ↔ t.overwrites before = true) ↔
      ¬ t.IsMissed before ∧ ¬ t.IsFalseAlarm before := by
  have htaken := isTaken_iff h before
  constructor
  · intro hsame
    refine ⟨fun ⟨hdue, hnone⟩ => ?_, fun ⟨hassign, hlike, hfresh, hnot⟩ => ?_⟩
    · obtain ⟨-, ⟨u, hu, hlike⟩, -⟩ := htaken.mp (hsame.mpr hdue)
      exact hnone u hu hlike
    · obtain ⟨-, ⟨u, hu, hnamed⟩, hspelled⟩ :=
        overwrites_iff.mp (hsame.mp (htaken.mpr ⟨hassign, hlike, hfresh⟩))
      rcases hnot with ⟨v, hv, halike⟩ | hunnamed
      · exact Bool.false_ne_true ((hspelled v hv).symm.trans halike)
      · exact Bool.false_ne_true ((hunnamed u hu).symm.trans hnamed)
  · rintro ⟨hmissed, halarm⟩
    constructor
    · intro hfound
      obtain ⟨hassign, hlike, hfresh⟩ := htaken.mp hfound
      have hnot : ¬ ((∃ u ∈ variablesIn before, u.sameSpelling t = true) ∨
          ∀ u ∈ variablesIn before, u.sameName t = false) :=
        fun hnot => halarm ⟨hassign, hlike, hfresh, hnot⟩
      push Not at hnot
      simpa [overwrites_iff, hassign] using hnot.symm
    · intro hdue
      obtain ⟨hassign, -, hspelled⟩ := overwrites_iff.mp hdue
      refine htaken.mpr ⟨hassign, ?_, fun u hu halike => ?_⟩
      · -- Else the target were missed.
        by_contra hnone
        exact hmissed ⟨hdue, fun u hu hlike => hnone ⟨u, hu, hlike⟩⟩
      · exact absurd ((hspelled u hu).symm.trans halike) Bool.false_ne_true

end Token

/-! ## What is reported -/

def Node.overwriteEntry (n : Node) (t : Token) : String × String × Int × Int :=
  ("0316", "Variable '" ++ t.value ++ "' may overwrite similar variable inside '" ++
    n.name?.getD "None" ++ "' " ++ n.ownerKind ++ ". Note that variables are case-insensitive, " ++
    "and also spaces and underscores are ignored.", t.line, t.column)

theorem Node.entry_takenFinding (n : Node) (t : Token) :
    (n.takenFinding t).entry = n.overwriteEntry t := by
  have hwording : Text.Wording _ [.string t.value, nameDatum n.name?, .string n.ownerKind]
      ("Variable '" ++ (t.value ++ ("' may overwrite similar variable inside '" ++
        ((nameDatum n.name?).text ++ ("' " ++ (n.ownerKind ++ (". Note that variables are case-insensitive, " ++
          "and also spaces and underscores are ignored."))))))) :=
    .plain rfl rfl (.text (.plain rfl rfl (.text (.plain rfl rfl (.text (.plain rfl rfl (.last rfl rfl)))))))
  have hname : (nameDatum n.name?).text = n.name?.getD "None" := by cases n.name? <;> rfl
  have hmessage := Finding.message_of_wording (f := n.takenFinding t) hwording
    (String.ofList_append.symm.trans rfl) rfl
  rw [Finding.entry, hmessage, hname, overwriteEntry]
  simp only [String.append_assoc]
  rfl

namespace Check.Variable

def OnSimilar (f : Finding) : Prop :=
  f.rule = .possibleVariableOverwriting ∧ ∃ name owner kind, f.args = [name, owner, kind]

theorem OnSimilar.fills {f : Finding} (h : OnSimilar f) :
    f.rule ∈ Checker.similarVariables.keys ∧ f.Fills := by
  obtain ⟨hrule, name, owner, kind, hargs⟩ := h
  exact ⟨by rw [hrule]; decide, Finding.fills_of_template hrule hargs String.ofList_append.symm rfl
    (.cons trivial (.cons trivial (.cons trivial .nil)))⟩

theorem onSimilar_assign (s : Scope) (ts : List Token) : ∀ f ∈ (s.assign ts).1, OnSimilar f := by
  induction ts generalizing s with
  | nil => simp [Scope.assign]
  | cons t ts ih =>
    intro f hf
    rcases List.mem_append.mp hf with hf | hf
    · split at hf
      · rw [List.mem_singleton.mp hf]
        exact ⟨rfl, _, _, _, rfl⟩
      · cases hf
    · exact ih _ f hf

theorem onSimilar_visit (s : Scope) (n : Node) : ∀ f ∈ (s.visit n).1, OnSimilar f := by
  intro f hf
  unfold Scope.visit at hf
  split at hf
  · split at hf
    · exact onSimilar_assign s _ f hf
    · cases hf
  all_goals cases hf

theorem onSimilar_visitAll (s : Scope) (ns : List Node) : ∀ f ∈ (s.visitAll ns).1, OnSimilar f := by
  induction ns generalizing s with
  | nil => simp [Scope.visitAll]
  | cons n ns ih =>
    intro f hf
    rcases List.mem_append.mp hf with hf | hf
    · exact onSimilar_visit s n f hf
    · exact ih _ f hf

end Check.Variable

namespace Options

open Check.Variable

/-- Where possible-variable-overwriting (0316) is on, the checker reports in the run of each test case or
keyword the targets that are taken for earlier variables. The run starts with the variables of the
definition itself. A target is taken for an earlier variable exactly if it overwrites a similar one, but
for targets that are missed and false alarms. -/
theorem overwritten_targets_iff (o : Options) {host : Host} {notes : List String} {s : Setup}
    (h : o.setup host = (notes, .ok s)) (hon : s.linter.registry.enables "0316" = true)
    (memory : Memory) (subject : Subject) :
    ∃ issues : List Issue, (s.linter.withMemory memory).scan .similarVariables subject = .ok issues ∧
      (Issue.among [.possibleVariableOverwriting] issues).map Issue.entry =
        (memory.scope.visitAll (cutRuns subject.document.visited).1).1.map Finding.entry ++
          subject.document.runs.flatMap (fun r =>
            (pickedAfter Token.isTaken [] r.introduced).map r.definition.overwriteEntry) ∧
      (∀ n ∈ subject.document.visited, n.isDefinition = true →
        (∀ m ∈ n.visited.tail, m.isDefinition = false) →
          ∃ r ∈ subject.document.runs, r.definition = n ∧ n.introduced <+: r.introduced) ∧
      ∀ r ∈ subject.document.runs, ∀ before t after, r.introduced = before ++ t :: after →
        Name.IsVariable t.value →
          ((t.isTaken before = true ↔ t.overwrites before = true) ↔
            ¬ t.IsMissed before ∧ ¬ t.IsFalseAlarm before) := by
  have hkey : RuleKey.possibleVariableOverwriting ∈ Checker.similarVariables.keys := by decide
  have hsimilar := onSimilar_visitAll memory.scope subject.document.visited
  have hrun : s.linter.finds host .similarVariables .possibleVariableOverwriting subject memory =
      .ok (memory.scope.visitAll subject.document.visited).1 := rfl
  obtain ⟨issues, hissues, hentries⟩ := o.scan_only h memory hkey hon hrun
    fun f hf => (hsimilar f hf).fills
  have hall : RuleKey.possibleVariableOverwriting.among
      (memory.scope.visitAll subject.document.visited).1 =
        (memory.scope.visitAll subject.document.visited).1 := by
    rw [RuleKey.among, List.filter_eq_self]
    exact fun f hf => decide_eq_true (hsimilar f hf).1
  refine ⟨issues, hissues, ?_, fun n => Document.exists_run, ?_⟩
  · rw [hentries, hall, Scope.visitAll_eq, List.map_append, List.map_flatMap]
    congr 1
    apply List.flatMap_congr
    intro r _
    rw [List.map_map]
    exact List.map_congr_left fun t _ => r.definition.entry_takenFinding t
  · exact fun r _ before t after _ ht => Token.isTaken_iff_overwrites_iff ht before

end Options

def Node.keywordOf (arguments : List String) (statements : List Statement) : Node :=
  .block .keyword ⟨.keywordName, [⟨.keywordName, "Kw", 2, 0⟩], []⟩
    (.leaf ⟨.arguments, ⟨.arguments, "[Arguments]", 3, 4⟩ ::
      arguments.map (⟨.argument, ·, 3, 19⟩), []⟩ :: statements.map .leaf) none none []

def Subject.similarTargets : Subject :=
  ⟨"a.robot", .text [], ⟨none, [⟨.keywords, none, [.keywordOf ["$\x7ba b\x7d"]
    [.callTo 4 [("$\x7bA_b\x7d", 4)], .callTo 5 [("$\x7bA_b\x7d", 4), ("$\x7bc\x7d=", 14)]]]⟩]⟩⟩

def Subject.markedThenPlain : Subject :=
  .withTest [.callTo 3 [("$\x7ba\x7d=", 4)], .callTo 4 [("$\x7bA\x7d", 4)]]

def Subject.markedTwice : Subject :=
  .withTest [.callTo 3 [("$\x7ba\x7d=", 4)], .callTo 4 [("$\x7ba\x7d =", 4)]]

namespace Options

open Check.Variable

theorem overwritten_targets_iff_similarTargets :
    ∃ (s : Setup) (issues : List Issue), standard.setup .plain = ([], .ok s) ∧
      s.linter.registry.enables "0316" = true ∧
      s.linter.scan .similarVariables .similarTargets = .ok issues ∧
      (Issue.among [.possibleVariableOverwriting] issues).map Issue.entry =
        [("0316", "Variable '$\x7bA_b\x7d' may overwrite similar variable inside 'Kw' Keyword. Note " ++
          "that variables are case-insensitive, and also spaces and underscores are ignored.", 4, 4)] ∧
      Subject.similarTargets.document.runs.flatMap (fun r =>
          (pickedAfter Token.overwrites [] r.introduced).map r.definition.overwriteEntry) =
        [("0316", "Variable '$\x7bA_b\x7d' may overwrite similar variable inside 'Kw' Keyword. Note " ++
          "that variables are case-insensitive, and also spaces and underscores are ignored.",
          4, 4)] := by
  have hsetup := setup_standard .plain
  have hon := enables_standard hsetup .possibleVariableOverwriting
  obtain ⟨issues, hissues, hreported, -⟩ := overwritten_targets_iff standard hsetup hon
    .blank .similarTargets
  refine ⟨_, issues, hsetup, hon, hissues, hreported.trans ?_, ?_⟩
  · decide +kernel
  · decide +kernel

/-- A mark behind an earlier target hides that a target overwrites it, and another mark behind the same
variable is taken for another variable. -/
theorem marks_taken_for_names :
    ∃ s : Setup, standard.setup .plain = ([], .ok s) ∧ s.linter.registry.enables "0316" = true ∧
      s.linter.scan .similarVariables .markedThenPlain = .ok [] ∧
      Subject.markedThenPlain.document.runs.flatMap (fun r =>
          (pickedAfter Token.overwrites [] r.introduced).map fun t => (t.value, t.line, t.column)) =
        [("$\x7bA\x7d", 4, 4)] ∧
      (s.linter.scan .similarVariables .markedTwice).toOption.map
          (·.map fun i => (i.ruleId, i.line, i.col)) = some [("0316", 4, 4)] ∧
      Subject.markedTwice.document.runs.flatMap (fun r =>
          (pickedAfter Token.overwrites [] r.introduced).map fun t => (t.value, t.line, t.column)) =
        [] := by
  have hsetup := setup_standard .plain
  refine ⟨_, hsetup, enables_standard hsetup .possibleVariableOverwriting, ?_, by decide +kernel, ?_,
    by decide +kernel⟩
  · rw [Linter.scan_tuned]
    rfl
  · rw [Linter.scan_tuned]
    decide +kernel

end Options

end SuiteLint
