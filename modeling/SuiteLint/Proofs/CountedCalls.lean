import Mathlib.Data.List.Basic
import SuiteLint.Proofs.RuleReports

/-!
# Which calls are counted

The rules on the number of calls (0502, 0503, 0505) go by a count that follows the bodies of blocks. What
stands beside the bodies is visited, but not counted: above all the ELSE branches of an IF.
-/

namespace SuiteLint

/-! ## Two ways to count -/

def Statement.isCall (s : Statement) : Bool := s.kind = .keywordCall

namespace Node

def callCount (n : Node) : Nat := n.statements.countP Statement.isCall

mutual

/-- The statements that stand in no body: the headers and ends of blocks, and all statements under an ELSE. -/
def besideBodies : Node → List Statement
  | .leaf _ => []
  | .block _ header body orelse close _ =>
    header :: (besideBodiesAll body ++ orelse.elim [] statements ++ close.toList)

def besideBodiesAll : List Node → List Statement
  | [] => []
  | n :: ns => n.besideBodies ++ besideBodiesAll ns

end

end Node

namespace Check.Length

def callsVisited (nodes : List Node) : Nat := (nodes.filterMap Node.statement?).countP Statement.isCall

theorem callsVisited_append (nodes more : List Node) :
    callsVisited (nodes ++ more) = callsVisited nodes + callsVisited more := by
  rw [callsVisited, List.filterMap_append, List.countP_append]
  rfl

private theorem callsVisited_branch (orelse : Option Node) :
    callsVisited (Node.visitedUntilBranch (fun _ => false) orelse) =
      (orelse.elim [] Node.statements).countP Statement.isCall := by
  cases orelse <;> simp [Node.visitedUntilBranch, callsVisited, Node.statements, Node.visited]

private theorem callsVisited_close (close : Option Statement) :
    callsVisited (close.toList.map .leaf) = close.toList.countP Statement.isCall := by
  cases close <;> rfl

mutual

theorem callsVisited_visited : ∀ n : Node,
    callsVisited (n.visitedUntil fun _ => false) = calls n + n.besideBodies.countP Statement.isCall
  | .leaf s => by
    cases hs : s.isCall <;>
      simp_all [callsVisited, Node.visitedUntil, Node.statement?, Node.besideBodies, calls,
        Statement.isCall]
  | .block kind header body orelse close errors => by
    have hheader (more : List Node) : callsVisited
        (.block kind header body orelse close errors :: .leaf header :: more) =
          [header].countP Statement.isCall + callsVisited more :=
      callsVisited_append [.block kind header body orelse close errors, .leaf header] more
    have hbeside : (Node.block kind header body orelse close errors).besideBodies =
        [header] ++ (Node.besideBodiesAll body ++ orelse.elim [] Node.statements ++ close.toList) := by
      rw [Node.besideBodies]
      rfl
    rw [Node.visitedUntil, if_neg Bool.false_ne_true, hheader, callsVisited_append,
      callsVisited_append, callsVisited_visitedAll body, callsVisited_branch, callsVisited_close,
      calls, hbeside, List.countP_append, List.countP_append, List.countP_append]
    omega

theorem callsVisited_visitedAll : ∀ ns : List Node,
    callsVisited (Node.visitedUntilAll (fun _ => false) ns) =
      callsOf ns + (Node.besideBodiesAll ns).countP Statement.isCall
  | [] => rfl
  | n :: ns => by
    rw [Node.visitedUntilAll, callsVisited_append, callsVisited_visited n, callsVisited_visitedAll ns,
      callsOf, Node.besideBodiesAll, List.countP_append]
    omega

end

theorem callCount_eq (n : Node) :
    n.callCount = calls n + n.besideBodies.countP Statement.isCall := callsVisited_visited n

theorem calls_eq_callCount_iff (n : Node) :
    calls n = n.callCount ↔ ∀ s ∈ n.besideBodies, s.kind ≠ .keywordCall := by
  rw [callCount_eq, Nat.left_eq_add, List.countP_eq_zero]
  simp [Statement.isCall]

end Check.Length

/-! ## What is due for a number of calls -/

def Document.definitions (d : Document) : List Node :=
  d.outermost fun k => k = .testCase || k = .keyword

def RuleKey.onCalls : List RuleKey :=
  [.tooFewCallsInKeyword, .tooManyCallsInKeyword, .tooManyCallsInTestCase]

namespace Node

def countEntry (n : Node) (id text : String) (count : Nat) (bound : Int) :
    String × String × Int × Int :=
  (id, text ++ " (" ++ toString count ++ "/" ++ toString bound ++ ")", anchor n.line, 1)

def dueAsTestCase (n : Node) (most : Int) (count : Nat) : List (String × String × Int × Int) :=
  if most < count then [n.countEntry "0505" "Test case has too many keywords inside" count most]
  else []

def dueAsKeyword (n : Node) (fewest most : Int) (count : Nat) : List (String × String × Int × Int) :=
  if (count : Int) < fewest then
    [n.countEntry "0502" "Keyword has too few keywords inside" count fewest]
  else if most < count then
    [n.countEntry "0503" "Keyword has too many keywords inside" count most]
  else []

theorem countEntry_inj {n : Node} {id text : String} {count count' : Nat} {bound : Int} :
    n.countEntry id text count bound = n.countEntry id text count' bound ↔ count = count' := by
  constructor
  · intro h
    have htext := congrArg (fun entry => entry.2.1.toList) h
    simp only [countEntry, Nat.toString_eq_ofList_toDigits, String.toList_append, List.append_assoc,
      List.append_cancel_left_eq, List.append_cancel_right_eq, String.toList_ofList] at htext
    have hdigits := congrArg (Nat.ofDigitChars 10 · 0) htext
    simpa only [Nat.ofDigitChars_ten_toDigits] using hdigits
  · exact congrArg (n.countEntry id text · bound)

theorem countEntry_over_eq_iff (n : Node) (id text : String) (most : Int) {count count' : Nat}
    (h : count < count') :
    ((if most < count then [n.countEntry id text count most] else []) =
      if most < count' then [n.countEntry id text count' most] else []) ↔ count' ≤ most := by
  by_cases hmost : most < count'
  · rw [if_pos hmost, iff_false_right (Int.not_le.mpr hmost)]
    split
    · rw [List.singleton_inj, countEntry_inj]
      exact Nat.ne_of_lt h
    · exact (List.cons_ne_nil _ _).symm
  · rw [if_neg hmost, if_neg (by omega)]
    simpa using hmost

private theorem dueAsTestCase_eq_iff (n : Node) (most : Int) {count count' : Nat} (h : count < count') :
    n.dueAsTestCase most count = n.dueAsTestCase most count' ↔ count' ≤ most :=
  n.countEntry_over_eq_iff _ _ most h

theorem dueAsKeyword_eq_iff (n : Node) (fewest most : Int) {count count' : Nat} (h : count < count') :
    n.dueAsKeyword fewest most count = n.dueAsKeyword fewest most count' ↔
      fewest ≤ count ∧ count' ≤ most := by
  have hid (text text' : String) (k k' : Nat) (b b' : Int) :
      n.countEntry "0502" text k b ≠ n.countEntry "0503" text' k' b' := by
    intro heq
    have hids : "0502" = "0503" := congrArg (·.1) heq
    exact absurd hids (by decide)
  unfold dueAsKeyword
  by_cases hfewest : (count : Int) < fewest
  · rw [if_pos hfewest, iff_false_right (fun hfit => absurd hfit.1 (Int.not_le.mpr hfewest))]
    split
    · rw [List.singleton_inj, countEntry_inj]
      exact Nat.ne_of_lt h
    · split
      · rw [List.singleton_inj]
        exact hid _ _ _ _ _ _
      · exact List.cons_ne_nil _ _
  · have hwithin : fewest ≤ count := Int.not_lt.mp hfewest
    rw [if_neg hfewest, if_neg (show ¬ (count' : Int) < fewest by omega), and_iff_right hwithin]
    exact n.countEntry_over_eq_iff _ _ most h

end Node

namespace Linter

def bound (l : Linter) (key : RuleKey) (param : String) : Int :=
  (l.valuesFor key).integer (key.slot param)

def Exempts (l : Linter) (n : Node) : Prop :=
  n.isBlock .keyword = true ∧
    (isCommentedOut (n.name?.getD "") = true ∨ l.bound .tooLongKeyword "max_len" < n.endLine - n.line)

instance (l : Linter) (n : Node) : Decidable (l.Exempts n) := inferInstanceAs (Decidable (_ ∧ _))

/-- What is due for a definition with so many calls. -/
def dueForCalls (l : Linter) (n : Node) (count : Nat) : List (String × String × Int × Int) :=
  if l.Exempts n then []
  else if n.isBlock .testCase then
    n.dueAsTestCase (l.bound .tooManyCallsInTestCase "max_calls") count
  else
    n.dueAsKeyword (l.bound .tooFewCallsInKeyword "min_calls")
      (l.bound .tooManyCallsInKeyword "max_calls") count

/-- It makes no difference whether the calls beside the bodies of a definition count: there are none, or
the number of calls does not matter, or it is within the bounds with them and without them. -/
def SparesBranches (l : Linter) (n : Node) : Prop :=
  (∀ s ∈ n.besideBodies, s.kind ≠ .keywordCall) ∨ l.Exempts n ∨
    if n.isBlock .testCase then (n.callCount : Int) ≤ l.bound .tooManyCallsInTestCase "max_calls"
    else l.bound .tooFewCallsInKeyword "min_calls" ≤ Check.Length.calls n ∧
      (n.callCount : Int) ≤ l.bound .tooManyCallsInKeyword "max_calls"

end Linter

namespace Linter

variable (l : Linter)

theorem dueForCalls_testCase {n : Node} (h : n.isBlock .testCase = true) (count : Nat) :
    l.dueForCalls n count = n.dueAsTestCase (l.bound .tooManyCallsInTestCase "max_calls") count := by
  have hnot : ¬ l.Exempts n := by
    rintro ⟨hkeyword, -⟩
    cases n <;> simp_all [Node.isBlock, Node.isBlockWith]
  rw [dueForCalls, if_neg hnot, if_pos h]

theorem countP_dueForCalls (n : Node) {count count' : Nat} (h : count ≤ count') :
    (l.dueForCalls n count').countP (·.1 == "0502") ≤ (l.dueForCalls n count).countP (·.1 == "0502") ∧
      (l.dueForCalls n count).countP (!·.1 == "0502") ≤
        (l.dueForCalls n count').countP (!·.1 == "0502") := by
  unfold dueForCalls
  split
  · exact ⟨Nat.le_refl _, Nat.le_refl _⟩
  · split
    · unfold Node.dueAsTestCase
      split_ifs <;> simp [Node.countEntry]
      omega
    · unfold Node.dueAsKeyword
      split_ifs <;> simp [Node.countEntry] <;> omega

/-- A definition gets what is due for the number of all its calls exactly if the calls beside its bodies
make no difference. -/
theorem dueForCalls_eq_iff (n : Node) :
    l.dueForCalls n (Check.Length.calls n) = l.dueForCalls n n.callCount ↔ l.SparesBranches n := by
  have hle := Check.Length.callCount_eq n
  rw [SparesBranches, ← Check.Length.calls_eq_callCount_iff]
  by_cases hexempt : l.Exempts n
  · simp [dueForCalls, hexempt]
  · by_cases heq : Check.Length.calls n = n.callCount
    · simp [heq]
    · have hlt : Check.Length.calls n < n.callCount := by omega
      simp only [heq, hexempt, false_or, dueForCalls, if_false]
      split
      · exact n.dueAsTestCase_eq_iff _ hlt
      · exact n.dueAsKeyword_eq_iff _ _ hlt

end Linter

/-! ## What is reported -/

namespace Check.Length

def heading (key : RuleKey) : List Char := key.template.toList.take (key.template.length - 6)

private theorem template_lengths : ∀ key ∈ Checker.lengths.keys,
    key.template = String.ofList (heading key ++ "%d/%d)".toList) ∧ (heading key).contains '%' = false := by
  decide +kernel

theorem fills_lengths {f : Finding} (hkey : f.rule ∈ Checker.lengths.keys) {count bound : Int}
    (hargs : f.args = [.integer count, .integer bound]) :
    f.Fills ∧ f.message =
      String.ofList (heading f.rule) ++ toString count ++ "/" ++ toString bound ++ ")" := by
  obtain ⟨htemplate, hplain⟩ := template_lengths f.rule hkey
  simp only [String.append_assoc]
  exact Finding.fills_of_wording (.plain rfl hplain (.number rfl (.plain rfl rfl
    (.number rfl (.last rfl rfl))))) htemplate hargs

def OnLength (f : Finding) : Prop :=
  f.rule ∈ Checker.lengths.keys ∧ ∃ count bound, f.args = [.integer count, .integer bound]

theorem onLength_counted {rule : RuleKey} (h : rule ∈ Checker.lengths.keys) (count limit : Int)
    (n : Node) : OnLength (counted rule count limit n) := ⟨h, count, limit, rfl⟩

theorem onLength_of_mem_ite {rule : RuleKey} (h : rule ∈ Checker.lengths.keys) {p : Prop} [Decidable p]
    {count limit : Int} {n : Node} {f : Finding}
    (hf : f ∈ if p then [counted rule count limit n] else []) : OnLength f := by
  split at hf
  · rw [List.mem_singleton.mp hf]
    exact onLength_counted h _ _ _
  · cases hf

private theorem onLength_callVerdict {vs : Values} {n : Node} {f : Finding} (h : f ∈ callVerdict vs n) :
    OnLength f := by
  unfold callVerdict at h
  split at h
  · rw [List.mem_singleton.mp h]
    exact onLength_counted (by decide) _ _ _
  · exact onLength_of_mem_ite (by decide) h

theorem onLength_inKeyword {vs : Values} {n : Node} {f : Finding} (h : f ∈ inKeyword vs n) :
    OnLength f := by
  rcases List.mem_append.mp h with h | h
  · exact onLength_of_mem_ite (by decide) h
  · change f ∈ verdict vs n at h
    unfold verdict at h
    split at h
    · rw [List.mem_singleton.mp h]
      exact ⟨show RuleKey.tooLongKeyword ∈ _ by decide, _, _, rfl⟩
    · exact onLength_callVerdict h

private theorem onLength_inTestCase {vs : Values} {n : Node} {f : Finding} (h : f ∈ inTestCase vs n) :
    OnLength f := by
  rcases List.mem_append.mp h with h | h
  · exact onLength_of_mem_ite (by decide) h
  · exact onLength_of_mem_ite (by decide) h

private theorem onLength_inFile {vs : Values} {d : Document} {f : Finding} (h : f ∈ inFile vs d) :
    OnLength f := by
  simp only [inFile] at h
  split at h
  · rw [List.mem_singleton.mp h]
    exact ⟨show RuleKey.fileTooLong ∈ _ by decide, _, _, rfl⟩
  · cases h

def foundIn (vs : Values) (n : Node) : List Finding := (inDefinition vs n).toOption.getD []

theorem onLength_foundIn {vs : Values} {n : Node} {f : Finding} (h : f ∈ foundIn vs n) :
    OnLength f := by
  unfold foundIn inDefinition at h
  split at h
  · exact onLength_inTestCase h
  · cases hname : requiredName n with
    | error e =>
      rw [hname] at h
      cases h
    | ok name =>
      simp only [hname, bind, Except.bind, pure, Except.pure, Except.toOption, Option.getD_some] at h
      split at h
      · cases h
      · exact onLength_inKeyword h

def onCalls (findings : List Finding) : List Finding :=
  findings.filter fun f => decide (f.rule ∈ RuleKey.onCalls)

theorem onCalls_append (findings more : List Finding) :
    onCalls (findings ++ more) = onCalls findings ++ onCalls more := List.filter_append _ _

theorem onCalls_eq_nil {findings : List Finding} (h : ∀ f ∈ findings, f.rule ∉ RuleKey.onCalls) :
    onCalls findings = [] := by
  rw [onCalls, List.filter_eq_nil_iff]
  simpa using h

theorem onCalls_eq_self {findings : List Finding} (h : ∀ f ∈ findings, f.rule ∈ RuleKey.onCalls) :
    onCalls findings = findings := by
  rw [onCalls, List.filter_eq_self]
  simpa using h

theorem entry_counted (rule : RuleKey) (text : String) (count : Nat) (bound : Int) (n : Node)
    (h : rule ∈ Checker.lengths.keys) (htext : String.ofList (heading rule) = text ++ " (") :
    (counted rule count bound n).entry = n.countEntry rule.id text count bound := by
  have hmessage := (fills_lengths (f := counted rule count bound n) h rfl).2
  have hrule : (counted rule count bound n).rule = rule := rfl
  rw [hrule, htext] at hmessage
  rw [Finding.entry, hmessage, Node.countEntry]
  rfl

section

variable {l : Linter} {vs : Values} (hvs : ∀ key ∈ Checker.lengths.keys, l.valuesFor key = vs)
include hvs

theorem bound_eq {key : RuleKey} (h : key ∈ Checker.lengths.keys) (param : String) :
    l.bound key param = vs.integer (key.slot param) := by rw [Linter.bound, hvs key h]

theorem entries_inTestCase (n : Node) :
    (onCalls (inTestCase vs n)).map Finding.entry =
      n.dueAsTestCase (l.bound .tooManyCallsInTestCase "max_calls") (calls n) := by
  have hlength : onCalls (if vs.integer (RuleKey.tooLongTestCase.slot "max_len") < span n then
      [counted .tooLongTestCase (span n) (vs.integer (RuleKey.tooLongTestCase.slot "max_len")) n]
      else []) = [] := by
    apply onCalls_eq_nil
    intro f hf
    have hrule : f.rule = .tooLongTestCase := rule_of_mem_ite hf
    rw [hrule]
    decide
  rw [inTestCase, onCalls_append, hlength, List.nil_append, onCalls_eq_self, Node.dueAsTestCase,
    bound_eq hvs (by decide)]
  · split
    · exact congrArg ([·]) (entry_counted _ _ _ _ _ (by decide) (by decide +kernel))
    · rfl
  · intro f hf
    have hrule : f.rule = .tooManyCallsInTestCase := rule_of_mem_ite hf
    rw [hrule]
    decide

theorem entries_callVerdict (n : Node) :
    (callVerdict vs n).map Finding.entry =
      n.dueAsKeyword (l.bound .tooFewCallsInKeyword "min_calls")
        (l.bound .tooManyCallsInKeyword "max_calls") (calls n) := by
  rw [bound_eq hvs (by decide), bound_eq hvs (by decide), Node.dueAsKeyword, callVerdict, lastVerdict,
    fewest]
  split
  · exact congrArg ([·]) (entry_counted _ _ _ _ _ (by decide) (by decide))
  · split
    · exact congrArg ([·]) (entry_counted _ _ _ _ _ (by decide) (by decide))
    · rfl

theorem entries_inKeyword (n : Node) :
    (onCalls (inKeyword vs n)).map Finding.entry =
      if longest vs < span n then []
      else n.dueAsKeyword (l.bound .tooFewCallsInKeyword "min_calls")
        (l.bound .tooManyCallsInKeyword "max_calls") (calls n) := by
  have harguments : onCalls (tooManyArguments vs n) = [] := by
    apply onCalls_eq_nil
    intro f hf
    have hrule : f.rule = .tooManyArguments := rule_of_mem_ite hf
    rw [hrule]
    decide
  rw [inKeyword_eq, onCalls_append, harguments, List.nil_append, verdict]
  split
  · rfl
  · rw [onCalls_eq_self, entries_callVerdict hvs]
    intro f hf
    have hcalls : ∀ key ∈ leftOut .tooLongKeyword, key ∈ RuleKey.onCalls := by decide
    exact hcalls _ (rule_callVerdict n vs f hf)

def IsJudged (n : Node) : Prop :=
  n.isBlock .testCase = true ∨ n.isBlock .keyword = true ∧ ∃ name, n.name? = some name

omit hvs in
theorem inDefinition_of_isJudged {n : Node} (h : IsJudged n) :
    inDefinition vs n = .ok (foundIn vs n) := by
  suffices hok : ∃ here, inDefinition vs n = .ok here by
    obtain ⟨here, hhere⟩ := hok
    rw [foundIn, hhere]
    rfl
  unfold inDefinition
  rcases h with htest | ⟨-, name, hname⟩
  · exact ⟨_, if_pos htest⟩
  · split
    · exact ⟨_, rfl⟩
    · simp only [requiredName, hname]
      exact ⟨_, rfl⟩

/-- What is found on the number of calls of a definition is due for the number that is counted. -/
theorem entries_foundIn {n : Node} (h : IsJudged n) :
    (onCalls (foundIn vs n)).map Finding.entry = l.dueForCalls n (calls n) := by
  rcases h with htest | ⟨hkeyword, name, hname⟩
  · rw [l.dueForCalls_testCase htest, foundIn, inDefinition, if_pos htest]
    exact entries_inTestCase hvs n
  · have hnot : ¬ n.isBlock .testCase = true := by
      cases n <;> simp_all [Node.isBlock, Node.isBlockWith]
    have hfound : foundIn vs n = if isCommentedOut name then [] else inKeyword vs n := by
      rw [foundIn, inDefinition, if_neg hnot, requiredName, hname]
      rfl
    have hexempt : l.Exempts n ↔ isCommentedOut name = true ∨ longest vs < span n := by
      rw [Linter.Exempts, hname, bound_eq hvs (by decide), and_iff_right hkeyword]
      rfl
    rw [Linter.dueForCalls, if_neg hnot, hfound]
    by_cases hcomment : isCommentedOut name = true
    · rw [if_pos hcomment, if_pos (hexempt.mpr (Or.inl hcomment))]
      rfl
    · rw [if_neg hcomment, entries_inKeyword hvs n]
      by_cases hlong : longest vs < span n
      · rw [if_pos hlong, if_pos (hexempt.mpr (Or.inr hlong))]
      · rw [if_neg hlong, if_neg fun h => (hexempt.mp h).elim hcomment hlong]

end

theorem isBlock_of_mem_definitions {d : Document} {n : Node} (h : n ∈ d.definitions) :
    n.isBlock .testCase = true ∨ n.isBlock .keyword = true := by
  obtain ⟨s, -, hs⟩ := List.mem_flatMap.mp h
  have hkind := (List.mem_filter.mp hs).2
  cases n with
  | leaf st => cases hkind
  | block kind header body orelse close errors =>
    simpa [Node.isBlockWith, Node.isBlock] using hkind

def foundAll (vs : Values) (d : Document) : List Finding :=
  inFile vs d ++ d.definitions.flatMap (foundIn vs)

private theorem check_eq {vs : Values} {d : Document} (h : ∀ n ∈ d.definitions, IsJudged n) :
    check vs d = .ok (foundAll vs d) := by
  have hgather : gather (inDefinition vs) d.definitions = .ok (d.definitions.flatMap (foundIn vs)) :=
    gather_eq_ok fun n hn => inDefinition_of_isJudged (h n hn)
  rw [Document.definitions] at hgather
  simp only [check, hgather, bind, Except.bind, pure, Except.pure]
  rfl

theorem fills_foundAll {vs : Values} {d : Document} {f : Finding} (h : f ∈ foundAll vs d) :
    f.rule ∈ Checker.lengths.keys ∧ f.Fills := by
  have hlength : OnLength f := by
    rcases List.mem_append.mp h with h | h
    · exact onLength_inFile h
    · obtain ⟨n, -, hn⟩ := List.mem_flatMap.mp h
      exact onLength_foundIn hn
  obtain ⟨hkey, count, bound, hargs⟩ := hlength
  exact ⟨hkey, (fills_lengths hkey hargs).1⟩

theorem entries_foundAll {l : Linter} {vs : Values}
    (hvs : ∀ key ∈ Checker.lengths.keys, l.valuesFor key = vs) {d : Document}
    (h : ∀ n ∈ d.definitions, IsJudged n) :
    (onCalls (foundAll vs d)).map Finding.entry =
      d.definitions.flatMap fun n => l.dueForCalls n (calls n) := by
  have hfile : onCalls (inFile vs d) = [] := by
    apply onCalls_eq_nil
    intro f hf
    have hrule : f.rule = .fileTooLong := rule_of_mem_ite hf
    rw [hrule]
    decide
  rw [foundAll, onCalls_append, hfile, List.nil_append, onCalls, List.filter_flatMap, List.map_flatMap]
  exact List.flatMap_congr fun n hn => entries_foundIn hvs (h n hn)

end Check.Length

private theorem countP_flatMap_le {α β : Type} {p : β → Bool} {f g : α → List β} {xs : List α}
    (h : ∀ x ∈ xs, (f x).countP p ≤ (g x).countP p) :
    (xs.flatMap f).countP p ≤ (xs.flatMap g).countP p := by
  induction xs with
  | nil => exact Nat.le_refl _
  | cons x xs ih =>
    rw [List.forall_mem_cons] at h
    rw [List.flatMap_cons, List.flatMap_cons, List.countP_append, List.countP_append]
    exact Nat.add_le_add h.1 (ih h.2)

/-- Where one list has no fewer elements of one sort in every part and no more of the others, the whole
lists are equal only if all parts are. -/
theorem flatMap_eq_iff_of_countP_le {α β : Type} {p : β → Bool} {f g : α → List β} {xs : List α}
    (hsome : ∀ x ∈ xs, (g x).countP p ≤ (f x).countP p)
    (hrest : ∀ x ∈ xs, (f x).countP (!p ·) ≤ (g x).countP (!p ·)) :
    xs.flatMap f = xs.flatMap g ↔ ∀ x ∈ xs, f x = g x := by
  induction xs with
  | nil => simp
  | cons x xs ih =>
    rw [List.forall_mem_cons] at hsome hrest ⊢
    rw [List.flatMap_cons, List.flatMap_cons, ← ih hsome.2 hrest.2]
    constructor
    · intro heq
      have hp := congrArg (List.countP p) heq
      have hq := congrArg (List.countP (!p ·)) heq
      have hpmore := countP_flatMap_le hsome.2
      have hqmore := countP_flatMap_le hrest.2
      have hlength (ys : List β) : ys.length = ys.countP p + ys.countP (!p ·) := by
        simpa using List.length_eq_countP_add_countP p (l := ys)
      have hf := hlength (f x)
      have hg := hlength (g x)
      rw [List.countP_append, List.countP_append] at hp hq
      exact List.append_inj heq (by omega)
    · rintro ⟨hx, hxs⟩
      rw [hx, hxs]

namespace Options

open Check.Length

/-- Where the rules on the number of calls (0502, 0503, 0505) are on and every keyword has a name, the checker
reports what is due for the calls that it counts in each definition. These are all its calls exactly if none
stands beside the bodies, as those under ELSE do. So the checker reports what is due for all calls exactly if
every definition spares the calls beside its bodies. -/
theorem calls_counted_iff (o : Options) {host : Host} {notes : List String} {s : Setup}
    (h : o.setup host = (notes, .ok s))
    (hon : ∀ key ∈ RuleKey.onCalls, s.linter.registry.enables key.id = true) (memory : Memory)
    (subject : Subject)
    (hnamed : ∀ n ∈ subject.document.definitions, n.isBlock .keyword = true → n.name?.isSome = true) :
    ∃ issues : List Issue, (s.linter.withMemory memory).scan .lengths subject = .ok issues ∧
      (Issue.among RuleKey.onCalls issues).map Issue.entry =
        subject.document.definitions.flatMap (fun n => s.linter.dueForCalls n (calls n)) ∧
      (∀ n : Node, calls n = n.callCount ↔ ∀ st ∈ n.besideBodies, st.kind ≠ .keywordCall) ∧
      ((Issue.among RuleKey.onCalls issues).map Issue.entry =
          subject.document.definitions.flatMap (fun n => s.linter.dueForCalls n n.callCount) ↔
        ∀ n ∈ subject.document.definitions, s.linter.SparesBranches n) := by
  have hjudged : ∀ n ∈ subject.document.definitions, IsJudged n := by
    intro n hn
    rcases isBlock_of_mem_definitions hn with htest | hkeyword
    · exact Or.inl htest
    · exact Or.inr ⟨hkeyword, Option.isSome_iff_exists.mp (hnamed n hn hkeyword)⟩
  have hvs : ∀ key ∈ Checker.lengths.keys,
      s.linter.valuesFor key = s.linter.valuesFor .tooManyCallsInTestCase :=
    fun key hkey => o.valuesFor_eq h hkey (by decide)
  generalize hvalues : s.linter.valuesFor .tooManyCallsInTestCase = vs at hvs
  have hrun : (Checker.lengths.run (subject.openJob host) vs ⟨subject.document, memory⟩).1 =
      .ok (foundAll vs subject.document) := check_eq hjudged
  have hkeys : ∀ key ∈ RuleKey.onCalls, key ∈ Checker.lengths.keys := by decide
  rw [← hvalues] at hrun
  obtain ⟨issues, hissues, hentries⟩ := o.scan_among h memory
    (hkeys _ (by decide)) (fun key hkey => ⟨hkeys key hkey, hon key hkey⟩) hrun fun f => fills_foundAll
  have hreported := hentries.trans (hvalues ▸ entries_foundAll hvs hjudged)
  refine ⟨issues, hissues, hreported, calls_eq_callCount_iff, ?_⟩
  have hcounts (n : Node) := s.linter.countP_dueForCalls n
    (show calls n ≤ n.callCount by rw [callCount_eq]; exact Nat.le_add_right _ _)
  rw [hreported, flatMap_eq_iff_of_countP_le (fun n _ => (hcounts n).1) (fun n _ => (hcounts n).2)]
  exact forall₂_congr fun n _ => s.linter.dueForCalls_eq_iff n

end Options

def Node.callOn (line : Int) : Node :=
  .leaf ⟨.keywordCall, [⟨.separator, "    ", line, 0⟩, ⟨.keyword, "Log", line, 4⟩], []⟩

/-- A test case with the given calls, and in an IF one call and as many as given under its ELSE. -/
def Node.testWithBranches (name : String) (line : Int) (direct other : List Int) : Node :=
  .block .testCase ⟨.testCaseName, [⟨.testCaseName, name, line, 0⟩], []⟩
    (direct.map callOn ++ [.block .if_ ⟨.ifHeader, [⟨.if_, "IF", line + 1, 4⟩], []⟩ [callOn (line + 2)]
      (some (.block .if_ ⟨.elseHeader, [⟨.else_, "ELSE", line + 3, 4⟩], []⟩ (other.map callOn)
        none none []))
      (some ⟨.end_, [⟨.end_, "END", line + 14, 4⟩], []⟩) []]) none none []

def Subject.callsInBranches : Subject :=
  ⟨"a.robot", .text [], ⟨none, [⟨.testCases, none,
    [.testWithBranches "Many" 2 (List.replicate 10 3) [], .testWithBranches "Few" 20 [] [24, 25]]⟩]⟩⟩

def Subject.callsInOtherBranch : Subject :=
  ⟨"a.robot", .text [], ⟨none, [⟨.testCases, none,
    [.testWithBranches "Test" 2 [] [6, 7, 8, 9, 10, 11, 12, 13, 14, 15]]⟩]⟩⟩

theorem Linter.bound_standard {key : RuleKey} (h : key ∈ Checker.lengths.keys) (param : String) :
    bound ⟨.plain, .tuned .plain Options.standard.selection.picks .start, .blank⟩ key param =
      (Checker.lengths.defaults).integer (key.slot param) := by
  rw [bound, valuesFor_tuned .plain _ _ _ h]
  rfl

namespace Options

open Check.Length

theorem calls_counted_iff_callsInBranches :
    ∃ (s : Setup) (issues : List Issue), standard.setup .plain = ([], .ok s) ∧
      (∀ key ∈ RuleKey.onCalls, s.linter.registry.enables key.id = true) ∧
      s.linter.scan .lengths .callsInBranches = .ok issues ∧
      (Issue.among RuleKey.onCalls issues).map Issue.entry =
        [("0505", "Test case has too many keywords inside (11/10)", 2, 1)] ∧
      Subject.callsInBranches.document.definitions.flatMap
          (fun n => s.linter.dueForCalls n n.callCount) =
        [("0505", "Test case has too many keywords inside (11/10)", 2, 1)] := by
  have hsetup := setup_standard .plain
  have hon : ∀ key ∈ RuleKey.onCalls, _ = true := fun key _ => enables_standard hsetup key
  have hdefinitions : Subject.callsInBranches.document.definitions =
      [.testWithBranches "Many" 2 (List.replicate 10 3) [],
        .testWithBranches "Few" 20 [] [24, 25]] := rfl
  have hbound := Linter.bound_standard (show .tooManyCallsInTestCase ∈ _ by decide) "max_calls"
  obtain ⟨issues, hissues, hreported, -, hall⟩ := calls_counted_iff standard hsetup hon
    .blank .callsInBranches (by rw [hdefinitions]; decide +kernel)
  rw [hdefinitions] at hreported hall
  have hmany : (Issue.among RuleKey.onCalls issues).map Issue.entry =
      [("0505", "Test case has too many keywords inside (11/10)", 2, 1)] := by
    rw [hreported, List.flatMap_cons, List.flatMap_singleton, Linter.dueForCalls_testCase _ rfl,
      Linter.dueForCalls_testCase _ rfl, hbound]
    decide +kernel
  refine ⟨_, issues, hsetup, hon, hissues, hmany, ?_⟩
  rw [hdefinitions, ← hall.mpr, hmany]
  rw [List.forall_mem_cons, List.forall_mem_singleton]
  refine ⟨Or.inl (by decide +kernel), Or.inr (Or.inr ?_)⟩
  rw [if_pos (show Node.isBlock _ _ = true from rfl), hbound]
  decide +kernel

/-- The calls under an ELSE do not count: eleven calls are not too many. -/
theorem calls_in_other_branch_passed_over :
    ∃ s : Setup, standard.setup .plain = ([], .ok s) ∧
      (∀ key ∈ RuleKey.onCalls, s.linter.registry.enables key.id = true) ∧
      s.linter.scan .lengths .callsInOtherBranch = .ok [] ∧
      Subject.callsInOtherBranch.document.definitions.map (fun n => (calls n, n.callCount)) = [(1, 11)] ∧
      Subject.callsInOtherBranch.document.definitions.flatMap
          (fun n => s.linter.dueForCalls n n.callCount) =
        [("0505", "Test case has too many keywords inside (11/10)", 2, 1)] := by
  have hsetup := setup_standard .plain
  have hdefinitions : Subject.callsInOtherBranch.document.definitions =
      [.testWithBranches "Test" 2 [] [6, 7, 8, 9, 10, 11, 12, 13, 14, 15]] := rfl
  refine ⟨_, hsetup, fun key _ => enables_standard hsetup key, ?_, by decide +kernel, ?_⟩
  · rw [Linter.scan_tuned]
    rfl
  · rw [hdefinitions, List.flatMap_singleton, Linter.dueForCalls_testCase _ rfl,
      Linter.bound_standard (by decide)]
    decide +kernel

end Options

end SuiteLint
