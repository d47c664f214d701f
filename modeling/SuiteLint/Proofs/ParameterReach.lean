import SuiteLint.Proofs.Gathering
import SuiteLint.Check.Assignment
import SuiteLint.Check.EmptyLine
import SuiteLint.Check.KeywordName
import SuiteLint.Check.Length
import SuiteLint.Check.SectionHeader

/-!
# How far a parameter reaches

Rules that share a checker share its parameters too. Two runs whose values differ in the parameters of one
rule find the same for the others, but for keywords over one limit and headers of kinds that the order
leaves out.
-/

namespace SuiteLint

/-! ## The findings of one rule -/

def RuleKey.among (key : RuleKey) (findings : List Finding) : List Finding :=
  findings.filter fun f => decide (f.rule = key)

theorem rule_of_mem_ite {p : Prop} [Decidable p] {f g : Finding} (h : f ∈ if p then [g] else []) :
    f.rule = g.rule := by
  split at h
  · rw [List.mem_singleton.mp h]
  · simp at h

namespace RuleKey

variable {α : Type} {key other : RuleKey}

theorem among_append (fs gs : List Finding) :
    key.among (fs ++ gs) = key.among fs ++ key.among gs := List.filter_append _ _

theorem among_cons (f : Finding) (fs : List Finding) :
    key.among (f :: fs) = if f.rule = key then f :: key.among fs else key.among fs := by
  simp [among, List.filter_cons]

theorem among_flatMap_congr {f g : α → List Finding} {xs : List α}
    (h : ∀ x ∈ xs, key.among (f x) = key.among (g x)) :
    key.among (xs.flatMap f) = key.among (xs.flatMap g) := by
  induction xs with
  | nil => rfl
  | cons x xs ih =>
    have hrest := ih fun y hy => h y (List.mem_cons_of_mem x hy)
    rw [List.flatMap_cons, List.flatMap_cons, among_append, among_append, h x List.mem_cons_self, hrest]

theorem among_eq_nil {fs : List Finding} (h : ∀ f ∈ fs, f.rule ≠ key) : key.among fs = [] := by
  rw [among, List.filter_eq_nil_iff]
  intro f hf
  simpa using h f hf

theorem among_congr (rule : RuleKey) (check : α → List Finding)
    (honly : ∀ a, ∀ f ∈ check a, f.rule = rule) {a b : α} (h : rule = key → check a = check b) :
    key.among (check a) = key.among (check b) := by
  by_cases hrule : rule = key
  · rw [h hrule]
  · have hnil (c : α) : key.among (check c) = [] :=
      among_eq_nil fun f hf => by rwa [honly c f hf]
    rw [hnil a, hnil b]

/-- A limit that decides about one finding makes a difference for the rule of this finding only. -/
theorem among_limit (rule : RuleKey) (p : Int → Prop) [DecidablePred p] (f : Int → Finding)
    (hf : ∀ limit, (f limit).rule = rule) {a b : Int} (h : rule = key → a = b) :
    key.among (if p a then [f a] else []) = key.among (if p b then [f b] else []) := by
  apply among_congr rule fun limit => if p limit then [f limit] else []
  · intro limit g hg
    exact (rule_of_mem_ite hg).trans (hf limit)
  · intro hrule
    rw [h hrule]

theorem among_gather {check : α → Except Breakdown (List Finding)}
    {there : α → List Finding} {xs : List α} {findings : List Finding}
    (hthere : ∀ x ∈ xs, ∀ here, check x = .ok here → key.among here = there x)
    (h : gather check xs = .ok findings) : key.among findings = xs.flatMap there := by
  induction xs generalizing findings with
  | nil =>
    rw [← Except.ok.inj h]
    rfl
  | cons x xs ih =>
    obtain ⟨here, more, hhere, hmore, rfl⟩ := gather_cons_eq_ok_iff.mp h
    rw [List.forall_mem_cons] at hthere
    rw [among_append, hthere.1 here hhere, ih hthere.2 hmore, List.flatMap_cons]

def SameIn (key : RuleKey) (a b : Except Breakdown (List Finding)) : Prop :=
  ∀ fs gs, a = .ok fs → b = .ok gs → key.among fs = key.among gs

namespace SameIn

theorem refl (a : Except Breakdown (List Finding)) : key.SameIn a a := by
  intro fs gs hf hg
  rw [hf] at hg
  rw [Except.ok.inj hg]

theorem of_among {fs gs : List Finding} (h : key.among fs = key.among gs) :
    key.SameIn (.ok fs) (.ok gs) := by
  intro fs' gs' hf hg
  rw [← Except.ok.inj hf, ← Except.ok.inj hg, h]

theorem congr (rule : RuleKey) (check : α → Except Breakdown (List Finding))
    (honly : ∀ a fs, check a = .ok fs → ∀ f ∈ fs, f.rule = rule) {a b : α}
    (h : rule = key → check a = check b) : key.SameIn (check a) (check b) := by
  by_cases hrule : rule = key
  · rw [h hrule]
    exact refl _
  · intro fs gs hf hg
    have hnil (c : α) (hs : List Finding) (hc : check c = .ok hs) : key.among hs = [] :=
      among_eq_nil fun f hf => by rwa [honly c hs hc f hf]
    rw [hnil a fs hf, hnil b gs hg]

theorem map {a b : Except Breakdown (List Finding)} {f g : List Finding → List Finding}
    (hab : key.SameIn a b) (h : ∀ fs gs, key.among fs = key.among gs → key.among (f fs) = key.among (g gs)) :
    key.SameIn (a >>= fun fs => pure (f fs)) (b >>= fun fs => pure (g fs)) := by
  intro fs gs hf hg
  obtain ⟨fs', ha, hf⟩ := exists_of_bind_eq_ok hf
  obtain ⟨gs', hb, hg⟩ := exists_of_bind_eq_ok hg
  rw [← Except.ok.inj hf, ← Except.ok.inj hg]
  exact h fs' gs' (hab fs' gs' ha hb)

theorem bind {β : Type} (first : Except Breakdown β) {f g : β → Except Breakdown (List Finding)}
    (h : ∀ x, key.SameIn (f x) (g x)) : key.SameIn (first >>= f) (first >>= g) := by
  cases first with
  | error e => exact refl _
  | ok x => exact h x

theorem gather {f g : α → Except Breakdown (List Finding)} {xs : List α}
    (h : ∀ x ∈ xs, key.SameIn (f x) (g x)) :
    key.SameIn (SuiteLint.gather f xs) (SuiteLint.gather g xs) := by
  induction xs with
  | nil => exact refl _
  | cons x xs ih =>
    have hrest := ih fun y hy => h y (List.mem_cons_of_mem x hy)
    intro fs gs hf hg
    obtain ⟨first, more, hx, hxs, rfl⟩ := gather_cons_eq_ok_iff.mp hf
    obtain ⟨first', more', hy, hys, rfl⟩ := gather_cons_eq_ok_iff.mp hg
    rw [among_append, among_append, h x List.mem_cons_self first first' hx hy, hrest more more' hxs hys]

end SameIn

end RuleKey

/-! ## Values that differ in the parameters of one rule -/

def Values.AgreeBut (key : RuleKey) (vs ws : Values) : Prop :=
  ∀ other : RuleKey, other ≠ key → ∀ name, vs.get (other.slot name) = ws.get (other.slot name)

namespace Values.AgreeBut

variable {key other : RuleKey} {vs ws : Values} (h : AgreeBut key vs ws) (hother : other ≠ key)
include h hother

theorem integer (name : String) : vs.integer (other.slot name) = ws.integer (other.slot name) := by
  rw [Values.integer, Values.integer, h other hother]

theorem limit (rule : RuleKey) (name : String) (hrule : rule = other) :
    vs.integer (rule.slot name) = ws.integer (rule.slot name) := by
  rw [hrule, h.integer hother]

theorem text (name : String) : vs.text (other.slot name) = ws.text (other.slot name) := by
  rw [Values.text, Values.text, h other hother]

theorem order (name : String) : vs.order (other.slot name) = ws.order (other.slot name) := by
  rw [Values.order, Values.order, h other hother]

end Values.AgreeBut

namespace Check

/-! ## Lengths -/

namespace Length

def longest (vs : Values) : Int := vs.integer (RuleKey.tooLongKeyword.slot "max_len")

def fewest (vs : Values) : Int := vs.integer (RuleKey.tooFewCallsInKeyword.slot "min_calls")

def Passes (key : RuleKey) (vs : Values) (n : Node) : Prop :=
  (key = .tooLongKeyword → span n ≤ longest vs) ∧
    (key = .tooFewCallsInKeyword → fewest vs ≤ calls n)

instance (key : RuleKey) (vs : Values) (n : Node) : Decidable (Passes key vs n) :=
  inferInstanceAs (Decidable (_ ∧ _))

def judged (d : Document) : List Node :=
  (d.outermost fun k => k = .testCase || k = .keyword).filter (!·.isBlock .testCase)

def leftOut : RuleKey → List RuleKey
  | .tooLongKeyword => [.tooFewCallsInKeyword, .tooManyCallsInKeyword]
  | .tooFewCallsInKeyword => [.tooManyCallsInKeyword]
  | _ => []

def lastVerdict (vs : Values) (n : Node) : List Finding :=
  let most := vs.integer (RuleKey.tooManyCallsInKeyword.slot "max_calls")
  if most < calls n then [counted .tooManyCallsInKeyword (calls n) most n] else []

def callVerdict (vs : Values) (n : Node) : List Finding :=
  if (calls n : Int) < fewest vs then [counted .tooFewCallsInKeyword (calls n) (fewest vs) n]
  else lastVerdict vs n

def verdict (vs : Values) (n : Node) : List Finding :=
  if longest vs < span n then
    [⟨.tooLongKeyword, [.integer (span n), .integer (longest vs)], n.endLine, 1,
      [n.line, lastFilledLine n]⟩]
  else callVerdict vs n

theorem inKeyword_eq (vs : Values) (n : Node) :
    inKeyword vs n = tooManyArguments vs n ++ verdict vs n := rfl

private theorem rule_lastVerdict (n : Node) (vs : Values) :
    ∀ f ∈ lastVerdict vs n, f.rule = .tooManyCallsInKeyword := by
  intro f hf
  exact rule_of_mem_ite hf

theorem rule_callVerdict (n : Node) (vs : Values) :
    ∀ f ∈ callVerdict vs n, f.rule ∈ leftOut .tooLongKeyword := by
  intro f hf
  unfold callVerdict at hf
  split at hf
  · have hrule : f.rule = .tooFewCallsInKeyword := by rw [List.mem_singleton.mp hf]; rfl
    rw [hrule]
    decide
  · rw [rule_lastVerdict n vs f hf]
    decide

section

variable {key other : RuleKey} {vs ws : Values} (h : vs.AgreeBut key ws) (hother : other ≠ key)
include h hother

private theorem among_inFile (d : Document) : other.among (inFile vs d) = other.among (inFile ws d) :=
  RuleKey.among_limit .fileTooLong (· < d.endLine)
    (fun most => found .fileTooLong [.integer d.endLine, .integer most] d.endLine 1) (fun _ => rfl)
    (h.limit hother _ _)

private theorem among_tooManyArguments (n : Node) :
    other.among (tooManyArguments vs n) = other.among (tooManyArguments ws n) :=
  RuleKey.among_limit .tooManyArguments
    (fun limit => (n.body.any (·.isStatement .arguments) && limit < argumentCount n) = true)
    (fun limit => counted .tooManyArguments (argumentCount n) limit n) (fun _ => rfl)
    (h.limit hother _ _)

theorem among_lastVerdict (n : Node) :
    other.among (lastVerdict vs n) = other.among (lastVerdict ws n) :=
  RuleKey.among_limit .tooManyCallsInKeyword (· < calls n)
    (fun most => counted .tooManyCallsInKeyword (calls n) most n) (fun _ => rfl) (h.limit hother _ _)

variable (hleft : other ∉ leftOut key)
include hleft

/-- Of other rules, the `min_calls` of 0502 matters for 0503 only. -/
theorem among_callVerdict (n : Node) :
    other.among (callVerdict vs n) = other.among (callVerdict ws n) := by
  by_cases hkey : key = .tooFewCallsInKeyword
  · have hnil (us : Values) : other.among (callVerdict us n) = [] := by
      apply RuleKey.among_eq_nil
      intro f hf heq
      have hrule := rule_callVerdict n us f hf
      rw [heq] at hrule
      subst hkey
      simp_all [leftOut]
    rw [hnil vs, hnil ws]
  · have hfewest : fewest vs = fewest ws := h.integer (Ne.symm hkey) _
    rw [callVerdict, callVerdict, hfewest]
    split
    · rfl
    · exact among_lastVerdict h hother n

theorem among_verdict (n : Node) : other.among (verdict vs n) = other.among (verdict ws n) := by
  by_cases hkey : key = .tooLongKeyword
  · have hnil (us : Values) : other.among (verdict us n) = [] := by
      apply RuleKey.among_eq_nil
      intro f hf heq
      unfold verdict at hf
      split at hf
      · rw [List.mem_singleton.mp hf] at heq
        exact hother (heq.symm.trans hkey.symm)
      · have hrule := rule_callVerdict n us f hf
        rw [heq, ← hkey] at hrule
        exact hleft hrule
    rw [hnil vs, hnil ws]
  · have hlongest : longest vs = longest ws := h.integer (Ne.symm hkey) _
    rw [verdict, verdict, hlongest]
    split
    · rfl
    · exact among_callVerdict h hother hleft n

omit hleft in
theorem among_inTestCase (n : Node) :
    other.among (inTestCase vs n) = other.among (inTestCase ws n) := by
  rw [inTestCase, inTestCase, RuleKey.among_append, RuleKey.among_append]
  congr 1
  · exact RuleKey.among_limit .tooLongTestCase (· < span n)
      (fun longest => counted .tooLongTestCase (span n) longest n) (fun _ => rfl) (h.limit hother _ _)
  · exact RuleKey.among_limit .tooManyCallsInTestCase (· < calls n)
      (fun most => counted .tooManyCallsInTestCase (calls n) most n) (fun _ => rfl)
      (h.limit hother _ _)

/-- Lengths and numbers are judged apart, but for 0502 and 0503, which come after a limit. -/
theorem sameIn_check (d : Document) : other.SameIn (check vs d) (check ws d) := by
  apply RuleKey.SameIn.map
  · apply RuleKey.SameIn.gather
    intro n hn
    unfold inDefinition
    split
    · exact .of_among (among_inTestCase h hother n)
    · apply RuleKey.SameIn.bind
      intro name
      apply RuleKey.SameIn.of_among
      split
      · rfl
      · rw [inKeyword_eq, inKeyword_eq, RuleKey.among_append, RuleKey.among_append,
          among_tooManyArguments h hother, among_verdict h hother hleft]
  · intro fs gs hsame
    rw [RuleKey.among_append, RuleKey.among_append, among_inFile h hother, hsame]

end

/-! ### Keywords within a limit -/

/-- What comes after the limit of a rule, at a keyword that keeps to it. -/
def withinLimit (key : RuleKey) (vs : Values) (n : Node) : List Finding :=
  if key = .tooLongKeyword then callVerdict vs n
  else if longest vs < span n then [] else lastVerdict vs n

/-- The findings of a rule that comes after the limit of another, at a keyword that keeps to that limit. -/
def laterFindings (key other : RuleKey) (vs : Values) (n : Node) : List Finding :=
  if isCommentedOut (n.name?.getD "") then [] else other.among (withinLimit key vs n)

section

variable {key other : RuleKey} {vs ws : Values} (hmem : other ∈ leftOut key)
include hmem

theorem ne_of_mem_leftOut : other ≠ key := by
  rintro rfl
  cases other <;> simp [leftOut] at hmem

theorem among_verdict_of_leftOut (n : Node) :
    other.among (verdict vs n) = if Passes key vs n then other.among (withinLimit key vs n) else [] := by
  have hother := ne_of_mem_leftOut hmem
  unfold leftOut at hmem
  split at hmem
  · rw [verdict, withinLimit, if_pos rfl]
    by_cases hlong : longest vs < span n
    · have hnot : ¬ Passes .tooLongKeyword vs n := fun hpass => Int.not_le.mpr hlong (hpass.1 rfl)
      rw [if_pos hlong, if_neg hnot, RuleKey.among_eq_nil]
      intro f hf
      rw [List.mem_singleton.mp hf]
      exact hother.symm
    · have hpass : Passes .tooLongKeyword vs n := ⟨fun _ => Int.not_lt.mp hlong, by simp⟩
      rw [if_neg hlong, if_pos hpass]
  · obtain rfl := List.mem_singleton.mp hmem
    have hwithin : withinLimit .tooFewCallsInKeyword vs n =
        if longest vs < span n then [] else lastVerdict vs n := if_neg (by decide)
    rw [verdict, hwithin]
    by_cases hlong : longest vs < span n
    · rw [if_pos hlong, if_pos hlong]
      split <;> rfl
    · rw [if_neg hlong, if_neg hlong, callVerdict]
      by_cases hfew : (calls n : Int) < fewest vs
      · have hnot : ¬ Passes .tooFewCallsInKeyword vs n := fun hpass => Int.not_le.mpr hfew (hpass.2 rfl)
        rw [if_pos hfew, if_neg hnot]
        rfl
      · have hpass : Passes .tooFewCallsInKeyword vs n := ⟨by simp, fun _ => Int.not_lt.mp hfew⟩
        rw [if_neg hfew, if_pos hpass]
  · cases hmem

theorem laterFindings_congr (h : vs.AgreeBut key ws) :
    laterFindings key other vs = laterFindings key other ws := by
  funext n
  have hlast := among_lastVerdict h (ne_of_mem_leftOut hmem) n
  have hwithin : other.among (withinLimit key vs n) = other.among (withinLimit key ws n) := by
    unfold withinLimit
    by_cases hkey : key = .tooLongKeyword
    · have hfewest : fewest vs = fewest ws := h.integer (by rw [hkey]; decide) _
      simp only [if_pos hkey, callVerdict, hfewest]
      split
      · rfl
      · exact hlast
    · have hlongest : longest vs = longest ws := h.integer (Ne.symm hkey) _
      simp only [if_neg hkey, hlongest]
      split
      · rfl
      · exact hlast
  rw [laterFindings, laterFindings, hwithin]

/-- A rule that comes after a limit is applied to the keywords that keep to it. -/
theorem among_check_of_leftOut {d : Document} {findings : List Finding} (h : check vs d = .ok findings) :
    other.among findings =
      ((judged d).filter (Passes key vs ·)).flatMap (laterFindings key other vs) := by
  have hcalls : other ∈ leftOut .tooLongKeyword := by
    unfold leftOut at hmem
    split at hmem
    · exact hmem
    · rw [List.mem_singleton.mp hmem]
      decide
    · cases hmem
  have hnot (rule : RuleKey) (hrule : rule ∉ leftOut .tooLongKeyword) {fs : List Finding}
      (hfs : ∀ f ∈ fs, f.rule = rule) : other.among fs = [] :=
    RuleKey.among_eq_nil fun f hf heq => hrule ((hfs f hf).symm.trans heq ▸ hcalls)
  obtain ⟨inside, hinside, h⟩ := exists_of_bind_eq_ok h
  have hfile : other.among (inFile vs d) = [] :=
    hnot .fileTooLong (by decide) fun f hf => rule_of_mem_ite hf
  rw [← Except.ok.inj h, RuleKey.among_append, hfile, List.nil_append, judged, List.filter_filter]
  rw [flatMap_filter, RuleKey.among_gather (fun n _ here hhere => ?_) hinside]
  unfold inDefinition at hhere
  by_cases htest : n.isBlock .testCase = true
  · rw [if_pos htest] at hhere
    simp only [htest, Bool.not_true, Bool.and_false, Bool.false_eq_true, if_false]
    rw [← Except.ok.inj hhere, inTestCase, RuleKey.among_append,
      hnot .tooLongTestCase (by decide) fun f hf => rule_of_mem_ite hf,
      hnot .tooManyCallsInTestCase (by decide) fun f hf => rule_of_mem_ite hf, List.append_nil]
  · rw [if_neg htest] at hhere
    obtain ⟨name, hname, hhere⟩ := exists_of_bind_eq_ok hhere
    have hgetD : n.name?.getD "" = name := by
      unfold requiredName at hname
      cases hn : n.name? <;> simp_all
    simp only [htest, Bool.not_false, Bool.and_true, decide_eq_true_eq, laterFindings, hgetD]
    rw [← Except.ok.inj hhere]
    split
    · simp [RuleKey.among]
    · have harguments : other.among (tooManyArguments vs n) = [] :=
        hnot .tooManyArguments (by decide) fun f hf => rule_of_mem_ite hf
      rw [inKeyword_eq, RuleKey.among_append, harguments, List.nil_append,
        among_verdict_of_leftOut hmem]

end

end Length

/-! ## Empty lines -/

namespace EmptyLine

/-- The limit decides which runs are reported, and not how many lines are left at the end. -/
theorem runsFrom_snd (limit limit' : Int) (judged : Bool) (r : Run) (ns : List Node) :
    (runsFrom limit judged r ns).2 = (runsFrom limit' judged r ns).2 := by
  induction ns generalizing judged r with
  | nil => rfl
  | cons n ns ih =>
    rw [runsFrom, runsFrom]
    split
    · exact ih _ _
    · exact ih _ _

theorem rule_runsFrom (limit : Int) (judged : Bool) (r : Run) (ns : List Node) :
    ∀ f ∈ (runsFrom limit judged r ns).1, f.rule = .consecutiveEmptyLines := by
  induction ns generalizing judged r with
  | nil => simp [runsFrom]
  | cons n ns ih =>
    intro f hf
    rw [runsFrom] at hf
    split at hf
    · exact ih _ _ f hf
    · rcases List.mem_append.mp hf with hf | hf
      · exact rule_of_mem_ite hf
      · exact ih _ _ f hf

theorem rule_afterSection (s : Section) (limit : Int) :
    ∀ f ∈ afterSection limit s, f.rule = .emptyLinesBetweenSections := by
  intro f hf
  simp only [afterSection] at hf
  split at hf
  · simp at hf
  · rw [List.mem_singleton.mp hf]
    rfl

theorem rule_afterHeader (s : Section) (limit : Int) (fs : List Finding)
    (h : afterHeader limit s = .ok fs) : ∀ f ∈ fs, f.rule = .emptyLineAfterSection := by
  intro f hf
  simp only [afterHeader] at h
  split at h
  · simp [← Except.ok.inj h] at hf
  · split at h
    · rw [← Except.ok.inj h] at hf
      rw [List.mem_singleton.mp hf]
      rfl
    · simp at h

section

variable {key other : RuleKey} {vs ws : Values} (h : vs.AgreeBut key ws) (hother : other ≠ key)
include h hother

theorem among_runs (judged : Bool) (body : List Node) :
    other.among (runs vs judged body).1 = other.among (runs ws judged body).1 := by
  apply RuleKey.among_congr .consecutiveEmptyLines (fun us => (runs us judged body).1)
  · intro us
    exact rule_runsFrom _ judged _ body
  · rintro rfl
    simp only [runs, h.integer hother]

/-- Each definition is judged by two limits, that on the lines inside and that on those after it. -/
theorem among_betweenDefinitions (kind : BlockKind) (rule : RuleKey) {a b : Int}
    (hab : rule = other → a = b) (ns : List Node) :
    other.among (betweenDefinitions vs kind rule a ns) =
      other.among (betweenDefinitions ws kind rule b ns) := by
  induction ns with
  | nil => rfl
  | cons n ns ih =>
    rw [betweenDefinitions, betweenDefinitions, RuleKey.among_append, RuleKey.among_append, ih]
    congr 1
    split
    · have htrailing : (runs vs true n.body).2 = (runs ws true n.body).2 := runsFrom_snd ..
      simp only [RuleKey.among_append, among_runs h hother, htrailing]
      congr 1
      exact RuleKey.among_limit rule
        (fun allowed => allowed ≠ (runs ws true n.body).2 ∧ allowed ≠ -1 ∧ !ns.isEmpty)
        (fun allowed => found rule [.integer (runs ws true n.body).2, .integer allowed] n.endLine 1)
        (fun _ => rfl) hab
    · rfl

theorem among_inSection (templated : Bool) (s : Section) :
    other.among (inSection vs templated s) = other.among (inSection ws templated s) := by
  rw [inSection, inSection, RuleKey.among_append, RuleKey.among_append]
  congr 1
  cases s.kind with
  | settings => exact among_runs h hother false s.body
  | variableRows => exact among_runs h hother false s.body
  | testCases =>
    apply among_betweenDefinitions h hother
    intro hrule
    rw [h.limit hother _ _ hrule]
  | keywords => exact among_betweenDefinitions h hother _ _ (h.limit hother _ _) s.body
  | comments => rfl

theorem sameIn_check (templated : Bool) (d : Document) :
    other.SameIn (check vs templated d) (check ws templated d) := by
  have hbetween : other.among (d.sections.dropLast.flatMap
        (afterSection (vs.integer (RuleKey.emptyLinesBetweenSections.slot "empty_lines")))) =
      other.among (d.sections.dropLast.flatMap
        (afterSection (ws.integer (RuleKey.emptyLinesBetweenSections.slot "empty_lines")))) := by
    apply RuleKey.among_flatMap_congr
    intro s _
    apply RuleKey.among_congr .emptyLinesBetweenSections (afterSection · s) (rule_afterSection s)
    intro hrule
    rw [h.limit hother _ _ hrule]
  have hsections : other.among (d.sections.flatMap (inSection vs templated)) =
      other.among (d.sections.flatMap (inSection ws templated)) :=
    RuleKey.among_flatMap_congr fun s _ => among_inSection h hother templated s
  apply RuleKey.SameIn.map
  · apply RuleKey.SameIn.gather
    intro s _
    apply RuleKey.SameIn.congr .emptyLineAfterSection (afterHeader · s) (rule_afterHeader s)
    intro hrule
    rw [h.limit hother _ _ hrule]
  · intro fs gs hsame
    simp only [RuleKey.among_append, hsame, hbetween, hsections]

end

end EmptyLine

/-! ## Assignment signs -/

namespace Assignment

def signFor (set : String) (prevailing : Option String) : Option String :=
  if set = "autodetect" then prevailing else some set

/-- The sign of calls is set or detected by itself, and so is that of variables. -/
theorem expected_eq {vs : Values} {d : Document} {signs : Option String × Option String}
    (h : expected vs d = .ok signs) :
    signs.1 = signFor (vs.text (RuleKey.inconsistentAssignment.slot "assignment_sign_type"))
        (prevailing? ((calls d).filterMap lastAssigned? |>.map signOf)) ∧
      signs.2 = signFor (vs.text (RuleKey.inconsistentAssignmentInVariables.slot "assignment_sign_type"))
        (((rows d).mapM rowToken).toOption.bind fun tokens => prevailing? (tokens.map signOf)) := by
  simp only [expected] at h
  split at h
  · obtain ⟨found, hfound, h⟩ := exists_of_bind_eq_ok h
    obtain ⟨tokens, htokens, hfound⟩ := exists_of_bind_eq_ok hfound
    rw [htokens, ← Except.ok.inj h, ← Except.ok.inj hfound]
    exact ⟨rfl, rfl⟩
  · next hset =>
    simp only [pure, Except.pure, Except.ok.injEq] at h
    simp only [Bool.or_eq_true, decide_eq_true_eq, not_or] at hset
    rw [← h, signFor, signFor, if_neg hset.1, if_neg hset.2]
    exact ⟨rfl, rfl⟩

theorem rule_judge (rule : RuleKey) (sign : String) (t : Token) :
    ∀ f ∈ judge rule sign t, f.rule = rule := by
  intro f hf
  unfold judge at hf
  split at hf
  · simp at hf
  · rw [List.mem_singleton.mp hf]
    rfl

theorem rule_inCalls (calls : List Statement) (sign : Option String) :
    ∀ f ∈ inCalls calls sign, f.rule = .inconsistentAssignment := by
  intro f hf
  cases sign with
  | none => simp [inCalls] at hf
  | some sign =>
    obtain ⟨s, -, hs⟩ := List.mem_flatMap.mp hf
    unfold inCall at hs
    split at hs
    · simp at hs
    · split at hs
      · exact rule_judge _ _ _ f hs
      · simp at hs

theorem rule_inRows (rows : List Statement) (sign : Option String) (fs : List Finding)
    (h : inRows rows sign = .ok fs) : ∀ f ∈ fs, f.rule = .inconsistentAssignmentInVariables := by
  cases sign with
  | none => simp [← Except.ok.inj h]
  | some sign =>
    refine forall_mem_gather (fun s _ here hhere => ?_) h
    unfold inRow at hhere
    split at hhere
    · simp [← Except.ok.inj hhere]
    · obtain ⟨t, -, hhere⟩ := exists_of_bind_eq_ok hhere
      rw [← Except.ok.inj hhere]
      exact rule_judge _ _ _

/-- The signs of calls and of variables are judged apart. -/
theorem sameIn_check {key other : RuleKey} {vs ws : Values} (h : vs.AgreeBut key ws)
    (hother : other ≠ key) (d : Document) : other.SameIn (check vs d) (check ws d) := by
  intro fs gs hf hg
  obtain ⟨signs, hv, hf⟩ := exists_of_bind_eq_ok hf
  obtain ⟨signs', hw, hg⟩ := exists_of_bind_eq_ok hg
  refine RuleKey.SameIn.gather (fun s _ => ?_) fs gs hf hg
  have hcalls : other.among (inCalls (callsIn s) signs.1) = other.among (inCalls (callsIn s) signs'.1) := by
    apply RuleKey.among_congr .inconsistentAssignment _ (rule_inCalls _)
    rintro rfl
    rw [(expected_eq hv).1, (expected_eq hw).1, h.text hother]
  apply RuleKey.SameIn.map
  · apply RuleKey.SameIn.congr .inconsistentAssignmentInVariables _ (rule_inRows _)
    rintro rfl
    rw [(expected_eq hv).2, (expected_eq hw).2, h.text hother]
  · intro fs gs hsame
    rw [RuleKey.among_append, RuleKey.among_append, hcalls, hsame]

end Assignment

/-! ## Names of keywords -/

namespace KeywordName

theorem among_spelling {key : RuleKey} {convention convention' : String}
    (h : key = .wrongCaseInKeywordName → convention = convention') (name : String) (n : Node) :
    key.among (spelling convention name n) = key.among (spelling convention' name n) := by
  by_cases hkey : key = .wrongCaseInKeywordName
  · rw [h hkey]
  · simp only [spelling, RuleKey.among_append]
    congr 1
    have hnil (p : Prop) [Decidable p] :
        key.among (if p then [found .wrongCaseInKeywordName [] (anchor n.line) 1] else []) = [] := by
      apply RuleKey.among_eq_nil
      intro f hf heq
      exact hkey (heq.symm.trans (rule_of_mem_ite hf))
    rw [hnil, hnil]

theorem sameIn_judge {key : RuleKey} {convention convention' : String}
    (h : key = .wrongCaseInKeywordName → convention = convention') (modern : Bool) (name : String)
    (n : Node) : key.SameIn (judge modern convention name n) (judge modern convention' name n) := by
  unfold judge
  split
  · exact .refl _
  · split
    · apply RuleKey.SameIn.bind
      intro others
      apply RuleKey.SameIn.bind
      intro stories
      apply RuleKey.SameIn.of_among
      simp only [RuleKey.among_append, among_spelling h]
    · split
      · exact .refl _
      · apply RuleKey.SameIn.bind
        intro stories
        apply RuleKey.SameIn.of_among
        rw [RuleKey.among_append, RuleKey.among_append, among_spelling h]

theorem sameIn_inNode {key : RuleKey} {convention convention' : String}
    (h : key = .wrongCaseInKeywordName → convention = convention') (modern : Bool) (n : Node) :
    key.SameIn (inNode modern convention n) (inNode modern convention' n) := by
  unfold inNode
  split
  · split
    · exact sameIn_judge h modern _ _
    · split
      · exact sameIn_judge h modern _ _
      · exact .refl _
  · simp only
    split
    · exact .refl _
    · exact sameIn_judge h modern _ _
  · exact .refl _
  · exact .refl _

theorem sameIn_check {key other : RuleKey} {vs ws : Values} (h : vs.AgreeBut key ws)
    (hother : other ≠ key) (modern : Bool) (d : Document) :
    other.SameIn (check modern vs d) (check modern ws d) := by
  apply RuleKey.SameIn.gather
  intro n _
  apply sameIn_inNode
  rintro rfl
  exact h.text hother _

end KeywordName

/-! ## Headers of sections -/

namespace SectionHeader

/-- A header of tasks is one of test cases. -/
def base : HeaderKind → HeaderKind
  | .tasks => .testCases
  | kind => kind

/-- Whether an order lists a kind of headers. -/
def lists (order : SectionOrder) (kind : HeaderKind) : Bool := (order.position? kind).isSome

def clashesAt (before : List HeaderKind) (kind : HeaderKind) (s : Statement) : List Finding :=
  let (counted, rival) := countedKind kind s
  let line := anchor s.line
  let value := (s.dataTokens.head?.map (·.value)).getD ""
  (if rival.any before.contains then [found .bothTestsAndTasks [] line 1] else []) ++
    if before.contains counted then [found .sectionAlreadyDefined [.string value] line 1] else []

/-- What is wrong with headers whatever their order, each with the kind of its header. -/
def clashesFrom (before : List HeaderKind) : List Statement → List (HeaderKind × Finding)
  | [] => []
  | s :: ss =>
    match s.mark?.bind kindOf with
    | none => clashesFrom before ss
    | some kind =>
      (clashesAt before kind s).map (kind, ·) ++ clashesFrom ((countedKind kind s).1 :: before) ss

def clashes (d : Document) : List (HeaderKind × Finding) :=
  clashesFrom [] (d.statementsOf .sectionHeader)

def clashesIn (order : SectionOrder) (cs : List (HeaderKind × Finding)) : List Finding :=
  (cs.filter fun c => lists order c.1).map (·.2)

private theorem clashesIn_append (order : SectionOrder) (cs ds : List (HeaderKind × Finding)) :
    clashesIn order (cs ++ ds) = clashesIn order cs ++ clashesIn order ds := by
  rw [clashesIn, List.filter_append, List.map_append]
  rfl

@[simp] theorem clashesIn_map (order : SectionOrder) (kind : HeaderKind) (fs : List Finding) :
    clashesIn order (fs.map (kind, ·)) = if lists order kind then fs else [] := by
  unfold clashesIn
  by_cases hkind : lists order kind = true
  · have hall : (fs.map (kind, ·)).filter (fun c => lists order c.1) = fs.map (kind, ·) := by
      rw [List.filter_eq_self]
      intro c hc
      obtain ⟨f, -, rfl⟩ := List.mem_map.mp hc
      exact hkind
    rw [hall, if_pos hkind, List.map_map]
    exact List.map_id fs
  · have hnone : (fs.map (kind, ·)).filter (fun c => lists order c.1) = [] := by
      rw [List.filter_eq_nil_iff]
      intro c hc
      obtain ⟨f, -, rfl⟩ := List.mem_map.mp hc
      exact hkind
    rw [hnone, if_neg hkind, List.map_nil]

/-- A header counts under its own kind, and so does the one that must not stand beside it. -/
theorem base_countedKind {mark : TokenKind} {kind : HeaderKind} (h : kindOf mark = some kind)
    (s : Statement) :
    base (countedKind kind s).1 = kind ∧ ∀ rival ∈ (countedKind kind s).2, base rival = kind := by
  have hkind : kind ≠ .tasks := by
    rintro rfl
    cases mark <;> simp [kindOf] at h
  unfold countedKind
  by_cases htests : kind = .testCases
  · rw [if_pos htests, htests]
    split <;> simp [base]
  · rw [if_neg htests]
    cases kind <;> simp_all [base]

def Remembers (order : SectionOrder) (before kinds : List HeaderKind) : Prop :=
  ∀ kind, kind ∈ kinds ↔ kind ∈ before ∧ lists order (base kind) = true

private theorem Remembers.contains_eq {order : SectionOrder} {before kinds : List HeaderKind}
    (h : Remembers order before kinds) {kind : HeaderKind} (hkind : lists order (base kind) = true) :
    kinds.contains kind = before.contains kind := by
  rw [Bool.eq_iff_iff, List.contains_iff_mem, List.contains_iff_mem, h kind]
  exact and_iff_left hkind

theorem Remembers.cons {order : SectionOrder} {before kinds : List HeaderKind}
    (h : Remembers order before kinds) {kind : HeaderKind} (hkind : lists order (base kind) = true) :
    Remembers order (kind :: before) (kind :: kinds) := by
  intro other
  rw [List.mem_cons, List.mem_cons, h other]
  constructor
  · rintro (rfl | hother)
    · exact ⟨Or.inl rfl, hkind⟩
    · exact ⟨Or.inr hother.1, hother.2⟩
  · rintro ⟨rfl | hother, hlists⟩
    · exact Or.inl rfl
    · exact Or.inr ⟨hother, hlists⟩

theorem Remembers.skip {order : SectionOrder} {before kinds : List HeaderKind}
    (h : Remembers order before kinds) {kind : HeaderKind} (hkind : lists order (base kind) = false) :
    Remembers order (kind :: before) kinds := by
  intro other
  rw [h other, List.mem_cons]
  constructor
  · rintro ⟨hother, hlists⟩
    exact ⟨Or.inr hother, hlists⟩
  · rintro ⟨rfl | hother, hlists⟩
    · simp [hkind] at hlists
    · exact ⟨hother, hlists⟩

/-- A header of a listed kind clashes with the headers that are remembered as with all before it. -/
theorem among_judge {order : SectionOrder} {before : List HeaderKind} {seen : Seen}
    (h : Remembers order before seen.kinds) {mark : TokenKind} {kind : HeaderKind}
    (hmark : kindOf mark = some kind) (hlists : lists order kind = true) (s : Statement)
    {other : RuleKey} (hother : other ≠ .sectionOutOfOrder) :
    other.among (judge order seen kind s).1 = other.among (clashesAt before kind s) := by
  obtain ⟨hcounted, hrival⟩ := base_countedKind hmark s
  have hsame : seen.kinds.contains (countedKind kind s).1 = before.contains (countedKind kind s).1 :=
    h.contains_eq (hcounted.symm ▸ hlists)
  have hbeside : (countedKind kind s).2.any seen.kinds.contains =
      (countedKind kind s).2.any before.contains := by
    cases hr : (countedKind kind s).2 with
    | none => rfl
    | some rival => exact h.contains_eq ((hrival rival hr).symm ▸ hlists)
  have hlast (p : Prop) [Decidable p] (args : List Datum) (line : Int) :
      other.among (if p then [found .sectionOutOfOrder args line 1] else []) = [] := by
    apply RuleKey.among_eq_nil
    intro f hf heq
    exact hother (heq.symm.trans (rule_of_mem_ite hf))
  simp only [judge, clashesAt, RuleKey.among_append, hsame, hbeside, hlast, List.append_nil]

theorem among_checkFrom {order : SectionOrder} {ss : List Statement} {before : List HeaderKind}
    {seen : Seen} (h : Remembers order before seen.kinds) {findings : List Finding}
    (hcheck : checkFrom order seen ss = .ok findings) {other : RuleKey}
    (hother : other ≠ .sectionOutOfOrder) :
    other.among findings = other.among (clashesIn order (clashesFrom before ss)) := by
  induction ss generalizing before seen findings with
  | nil => rw [← Except.ok.inj hcheck]; rfl
  | cons s ss ih =>
    rw [checkFrom] at hcheck
    cases hs : s.mark? with
    | none => simp [hs] at hcheck
    | some mark =>
      simp only [hs] at hcheck
      cases hk : kindOf mark with
      | none =>
        simp only [hk, Option.filter_none] at hcheck
        simp only [clashesFrom, hs, Option.bind_some, hk]
        exact ih h hcheck
      | some kind =>
        have hbase := (base_countedKind hk s).1
        simp only [clashesFrom, hs, Option.bind_some, hk, clashesIn_append, clashesIn_map]
        by_cases hlists : lists order kind = true
        · simp only [hk, Option.filter_some, show (order.position? kind).isSome = true from hlists,
            if_true] at hcheck
          obtain ⟨more, hmore, hcheck⟩ := exists_of_bind_eq_ok hcheck
          have hnext : Remembers order ((countedKind kind s).1 :: before)
              (judge order seen kind s).2.kinds := h.cons (hbase.symm ▸ hlists)
          rw [← Except.ok.inj hcheck, if_pos hlists, RuleKey.among_append, RuleKey.among_append,
            among_judge h hk hlists s hother, ih hnext hmore]
        · simp only [hk, Option.filter_some,
            show (order.position? kind).isSome = false by simpa [lists] using hlists,
            Bool.false_eq_true, if_false] at hcheck
          have hskip : lists order (base (countedKind kind s).1) = false := by
            rw [hbase]
            simpa using hlists
          rw [if_neg hlists, List.nil_append]
          exact ih (h.skip hskip) hcheck

/-- Apart from their order, headers are reported for the clashes of those of listed kinds. -/
theorem among_check {order : SectionOrder} {d : Document} {findings : List Finding}
    (h : check order d = .ok findings) {other : RuleKey} (hother : other ≠ .sectionOutOfOrder) :
    other.among findings = other.among (clashesIn order (clashes d)) :=
  among_checkFrom (fun _ => by simp [Seen.none]) h hother

end SectionHeader

end Check

end SuiteLint
