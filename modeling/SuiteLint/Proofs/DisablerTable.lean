import SuiteLint.Proofs.DisablerComments
import SuiteLint.Proofs.Lookup

/-!
# The table of disabled lines, rule by rule

A table keeps for every rule the lines and blocks on which it is off. What a line of the file does to one
rule depends on the marks of this rule and on the comment of the line.
-/

namespace SuiteLint.Disabler

namespace Table

theorem marks_update (t : Table) (rule other : String) (f : Marks → Marks) :
    (t.update rule f).marks other = if other = rule then f (t.marks other) else t.marks other := by
  have hlookup := Lookup.lookup_put f (f Marks.none) t rule other
  rw [marks, update, hlookup]
  by_cases h : other = rule
  · subst h
    cases hother : t.lookup other <;> simp [marks, hother]
  · simp [marks, h]

theorem marks_closeBlock (t : Table) (rule other : String) (line : Nat) :
    (t.closeBlock rule line).marks other =
      if rule = "all" ∨ other = rule then (t.marks other).close line else t.marks other := by
  have hnone : Marks.none.close line = Marks.none := rfl
  unfold closeBlock marks
  by_cases hall : rule = "all"
  · rw [if_pos hall, if_pos (Or.inl hall), Lookup.lookup_map fun _ => Marks.close line]
    cases t.lookup other <;> simp [hnone]
  · rw [if_neg hall, Lookup.lookup_change]
    by_cases h : other = rule
    · cases t.lookup other <;> simp [h, hnone]
    · simp [h, hall]

end Table

namespace Marks

def addLine (line : Nat) (m : Marks) : Marks :=
  if m.lines.contains line then m else { m with lines := m.lines ++ [line] }

def openAt (line : Nat) (m : Marks) : Marks := { m with opened := m.opened.or (some line) }

theorem addLine_addLine (line : Nat) (m : Marks) :
    (m.addLine line).addLine line = m.addLine line := by
  unfold addLine
  split
  · simp_all
  · simp

private theorem openAt_openAt (line : Nat) (m : Marks) : (m.openAt line).openAt line = m.openAt line := by
  simp [openAt]

private theorem close_close (line : Nat) (m : Marks) : (m.close line).close line = m.close line := by
  obtain ⟨opened, lines, blocks⟩ := m
  cases opened <;> rfl

@[simp] theorem close_lines (line : Nat) (m : Marks) : (m.close line).lines = m.lines := by
  obtain ⟨opened, lines, blocks⟩ := m
  cases opened <;> rfl

@[simp] theorem close_opened (line : Nat) (m : Marks) : (m.close line).opened = Option.none := by
  obtain ⟨opened, lines, blocks⟩ := m
  cases opened <;> rfl

@[simp] theorem close_blocks (line : Nat) (m : Marks) :
    (m.close line).blocks = m.blocks ++ m.opened.toList.map (·, line) := by
  obtain ⟨opened, lines, blocks⟩ := m
  cases opened <;> simp [close]

@[simp] theorem addLine_opened (line : Nat) (m : Marks) : (m.addLine line).opened = m.opened := by
  unfold addLine
  split <;> rfl

@[simp] theorem addLine_blocks (line : Nat) (m : Marks) : (m.addLine line).blocks = m.blocks := by
  unfold addLine
  split <;> rfl

@[simp] theorem mem_addLine_lines (line : Nat) (m : Marks) (l : Nat) :
    l ∈ (m.addLine line).lines ↔ l ∈ m.lines ∨ l = line := by
  unfold addLine
  split
  · rename_i h
    constructor
    · exact Or.inl
    · rintro (hl | rfl)
      · exact hl
      · simpa using h
  · simp

/-- What one line does to the marks of one rule. -/
def next (number : Nat) (line : List Char) (rule : String) (m : Marks) : Marks :=
  let m := if IsInline line rule then m.addLine number else m
  if IsBlock .disable line rule then m.openAt number
  else if Ends line rule then m.close number
  else m

end Marks

/-- A change that is made for one rule after the other, and does no more when it is repeated, is made
once to the marks of every rule that is concerned. -/
private theorem marks_foldl (step : Table → String → Table) (concerns : String → String → Prop)
    [∀ rule other, Decidable (concerns rule other)] (f : Marks → Marks) (hf : ∀ m, f (f m) = f m)
    (hstep : ∀ t rule other,
      (step t rule).marks other = if concerns rule other then f (t.marks other) else t.marks other)
    (rules : List String) (t : Table) (other : String) :
    (rules.foldl step t).marks other =
      if ∃ rule ∈ rules, concerns rule other then f (t.marks other) else t.marks other := by
  induction rules generalizing t with
  | nil => simp
  | cons rule rules ih =>
    rw [List.foldl_cons, ih, hstep]
    by_cases h : concerns rule other
    · by_cases h' : ∃ rule ∈ rules, concerns rule other
      · simp [h, h', hf]
      · simp [h, h']
    · simp [h]

theorem marks_obey (t : Table) (alone : Bool) (number : Nat) (c : Command) (rule : String) :
    (obey t alone number c).marks rule =
      match c.action, alone with
      | .disable, true => if rule ∈ c.rules then (t.marks rule).openAt number else t.marks rule
      | .disable, false => if rule ∈ c.rules then (t.marks rule).addLine number else t.marks rule
      | .enable, true =>
        if rule ∈ c.rules ∨ "all" ∈ c.rules then (t.marks rule).close number else t.marks rule
      | .enable, false => t.marks rule := by
  obtain ⟨action, rules⟩ := c
  cases action <;> cases alone
  · have h := marks_foldl (fun t name => t.addLine name number) (fun name other => other = name)
      (Marks.addLine number) (Marks.addLine_addLine number)
      (fun t name other => t.marks_update name other _) rules t rule
    simpa [obey] using h
  · have h := marks_foldl (fun t name => t.openBlock name number) (fun name other => other = name)
      (Marks.openAt number) (Marks.openAt_openAt number)
      (fun t name other => t.marks_update name other _) rules t rule
    simpa [obey] using h
  · rfl
  · have h := marks_foldl (fun t name => t.closeBlock name number)
      (fun name other => name = "all" ∨ other = name) (Marks.close number) (Marks.close_close number)
      (fun t name other => t.marks_closeBlock name other number) rules t rule
    have hmem : (∃ name ∈ rules, name = "all" ∨ rule = name) ↔ rule ∈ rules ∨ "all" ∈ rules := by
      constructor
      · rintro ⟨name, hname, rfl | rfl⟩
        · exact Or.inr hname
        · exact Or.inl hname
      · rintro (h | h)
        · exact ⟨rule, h, Or.inr rfl⟩
        · exact ⟨"all", h, Or.inl rfl⟩
    simpa only [obey, hmem] using h

theorem readLine_eq (t : Table) (number : Nat) (line : List Char) :
    readLine t number line =
      let t := if Text.has "# noqa".toList line then t.addLine "all" number else t
      match bearing? line with
      | none => t
      | some (before, c) => obey t (Text.isBlankText before) number c := by
  unfold readLine bearing?
  cases hcut : Text.cutAt '#' line with
  | mk before comment =>
    cases comment with
    | none =>
      have hno : Text.has "# noqa".toList line = false := by
        rw [← Bool.not_eq_true, Text.has_iff]
        intro h
        exact Text.cutAt_none_iff.mp (congrArg Prod.snd hcut) (h.subset (by decide))
      simp only [hno, Bool.false_eq_true, if_false]
    | some comment => cases h : command? comment <;> simp only [h] <;> rfl

private theorem marks_noqa (t : Table) (number : Nat) (line : List Char) (rule : String) :
    (if Text.has "# noqa".toList line then t.addLine "all" number else t).marks rule =
      if rule = "all" ∧ Text.has "# noqa".toList line = true then (t.marks rule).addLine number
      else t.marks rule := by
  by_cases h : Text.has "# noqa".toList line = true
  · simp only [h, if_true, and_true]
    exact t.marks_update "all" rule _
  · simp only [h, Bool.false_eq_true, if_false, and_false]

theorem marks_readLine (t : Table) (number : Nat) (line : List Char) (rule : String) :
    (readLine t number line).marks rule = (t.marks rule).next number line rule := by
  rw [readLine_eq]
  cases hb : bearing? line with
  | none =>
    have hno (action : Action) (rule : String) : ¬ IsBlock action line rule := by
      simp [isBlock_iff, hb]
    simp only [marks_noqa, Marks.next, hno, Ends, isInline_iff, hb, if_false, or_self]
    generalize Text.has "# noqa".toList line = noqa
    simp
  | some p =>
    obtain ⟨before, action, rules⟩ := p
    simp only [marks_obey, marks_noqa, Marks.next, Ends, isInline_iff, isBlock_iff, hb,
      Option.mem_def, Option.some.injEq, exists_eq_left']
    generalize Text.has "# noqa".toList line = noqa
    -- a comment is either alone on its line or not, so at most one of the three changes is left
    cases action <;> cases Text.isBlankText before
    · by_cases hn : rule = "all" ∧ noqa = true <;> by_cases hr : rule ∈ rules <;>
        simp [hn, hr, Marks.addLine_addLine]
    · by_cases hr : rule ∈ rules <;> simp [hr]
    · simp
    · simp

end SuiteLint.Disabler
