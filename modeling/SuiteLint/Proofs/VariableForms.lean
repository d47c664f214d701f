import SuiteLint.Name

/-!
# How variables are written and compared

The form in which variables are compared drops the first two characters and the last one, wherever the
closing brace stands. So it is the compared name only where nothing follows the brace.
-/

namespace SuiteLint

namespace Text

/-! ## Lower case beside characters without case -/

def IsNeutral (c : Char) : Prop :=
  isCased c = false ∧ isCaseIgnorable c = false ∧ c ≠ 'Σ' ∧ lowerChar c = [c]

instance (c : Char) : Decidable (IsNeutral c) := inferInstanceAs (Decidable (_ ∧ _))

variable {c : Char} (h : IsNeutral c)
include h

private theorem endsWord_append_neutral (before s t : List Char) :
    endsWord before (s ++ c :: t) = endsWord before s := by
  unfold endsWord
  rw [List.dropWhile_append, List.dropWhile_cons_of_neg (by simp [h.2.1])]
  cases s.dropWhile isCaseIgnorable with
  | nil => simp [h.1]
  | cons d rest => simp

private theorem endsWord_neutral_append (before t after : List Char) :
    endsWord (before ++ c :: t) after = endsWord before after := by
  unfold endsWord
  rw [List.dropWhile_append, List.dropWhile_cons_of_neg (by simp [h.2.1])]
  cases before.dropWhile isCaseIgnorable with
  | nil => simp [h.1]
  | cons d rest => simp

private theorem lowerAfter_neutral_append (before t s : List Char) :
    lowerAfter (before ++ c :: t) s = lowerAfter before s := by
  induction s generalizing before with
  | nil => rfl
  | cons d s ih =>
    rw [lowerAfter, lowerAfter, endsWord_neutral_append h, ← List.cons_append, ih]

theorem lowerAfter_append_neutral (before s t : List Char) :
    lowerAfter before (s ++ c :: t) = lowerAfter before s ++ c :: lower t := by
  induction s generalizing before with
  | nil =>
    have hrest : lowerAfter (c :: before) t = lower t := lowerAfter_neutral_append h [] before t
    change lowerAfter before (c :: t) = c :: lower t
    rw [lowerAfter, if_neg h.2.2.1, h.2.2.2, hrest]
    rfl
  | cons d s ih =>
    rw [List.cons_append, lowerAfter, lowerAfter, endsWord_append_neutral h, ih, List.append_assoc]

private theorem lower_append_neutral (s t : List Char) : lower (s ++ c :: t) = lower s ++ c :: lower t :=
  lowerAfter_append_neutral h [] s t

omit h in
theorem toNat_ofNat (n : Nat) : (Char.ofNat n).toNat = n ∨ (Char.ofNat n).toNat = 0 := by
  unfold Char.ofNat
  by_cases h : n.isValidChar
  · rw [dif_pos h]
    exact Or.inl rfl
  · rw [dif_neg h]
    exact Or.inr rfl

omit h in
/-- Only a brace has a brace in its lower case form. -/
theorem lowerChar_of_not_brace (hopen : c ≠ '{') (hclose : c ≠ '}') :
    ∀ d ∈ lowerChar c, d ≠ '{' ∧ d ≠ '}' := by
  have hascii : ∀ n < 128, Char.ofNat n ≠ '{' → Char.ofNat n ≠ '}' →
      (Char.ofNat n).toLower ≠ '{' ∧ (Char.ofNat n).toLower ≠ '}' := by decide +kernel
  have hruns : ∀ r ∈ toLowerRuns, 125 < r.image ∨ r.image = 107 ∧ r.run.first = r.run.last := by
    decide +kernel
  have hfar {n : Nat} (hn : 125 < n ∨ n = 107) : Char.ofNat n ≠ '{' ∧ Char.ofNat n ≠ '}' := by
    have hcode := toNat_ofNat n
    constructor
    · intro heq
      have hbrace : '{'.toNat = 123 := rfl
      rw [heq] at hcode
      omega
    · intro heq
      have hbrace : '}'.toNat = 125 := rfl
      rw [heq] at hcode
      omega
  intro d hd
  unfold lowerChar at hd
  split at hd
  · next hsmall =>
    rw [List.mem_singleton.mp hd, ← Char.ofNat_toNat c]
    rw [← Char.ofNat_toNat c] at hopen hclose
    exact hascii c.toNat hsmall hopen hclose
  · split at hd
    · have hboth : ∀ d ∈ ['i', Char.ofNat 775], d ≠ '{' ∧ d ≠ '}' :=
        List.forall_mem_cons.mpr ⟨by decide, List.forall_mem_singleton.mpr (by decide)⟩
      exact hboth d hd
    · rw [List.mem_singleton.mp hd]
      unfold moved
      split
      · next r hr =>
        have hhas := List.find?_some hr
        simp only [CodeRun.has, Bool.and_eq_true, decide_eq_true_eq] at hhas
        rcases hruns r (List.mem_of_find?_eq_some hr) with himage | ⟨himage, hsingle⟩
        · exact hfar (Or.inl (by omega))
        · exact hfar (Or.inr (by omega))
      · exact ⟨hopen, hclose⟩

end Text

namespace Name

/-! ## Braces that match -/

def openAfter (depth : Nat) (c : Char) : Nat :=
  if c = '{' then depth + 1 else if c = '}' then depth - 1 else depth

/-- Cuts a text at the brace that closes it, with so many further braces open: what stands before that
brace, and what follows it. -/
def cutBrace (depth : Nat) : List Char → List Char × List Char
  | [] => ([], [])
  | c :: rest =>
    if c = '}' ∧ depth = 0 then ([], rest)
    else (c :: (cutBrace (openAfter depth c) rest).1, (cutBrace (openAfter depth c) rest).2)

/-- With so many braces open before a text, none is closed in it that is not open, and none is open at
its end. -/
def closes (depth : Nat) : List Char → Bool
  | [] => depth = 0
  | c :: rest => ¬ (c = '}' ∧ depth = 0) && closes (openAfter depth c) rest

@[simp] theorem closes_cons (depth : Nat) (c : Char) (rest : List Char) :
    closes depth (c :: rest) = true ↔
      ¬ (c = '}' ∧ depth = 0) ∧ closes (openAfter depth c) rest = true := by
  rw [closes, Bool.and_eq_true, decide_eq_true_eq]

theorem cutBrace_append {depth : Nat} {base : List Char} (h : closes depth base = true)
    (tail : List Char) : cutBrace depth (base ++ '}' :: tail) = (base, tail) := by
  induction base generalizing depth with
  | nil =>
    rw [List.nil_append, cutBrace, if_pos ⟨rfl, of_decide_eq_true h⟩]
  | cons c base ih =>
    rw [closes_cons] at h
    rw [List.cons_append, cutBrace, if_neg h.1, ih h.2]

private theorem cutBrace_of_closes {depth : Nat} {base : List Char} (h : closes depth base = true) :
    cutBrace depth base = (base, []) := by
  induction base generalizing depth with
  | nil => rfl
  | cons c base ih =>
    rw [closes_cons] at h
    rw [cutBrace, if_neg h.1, ih h.2]

theorem closes_cutBrace {depth : Nat} {rest : List Char}
    (h : rest = (cutBrace depth rest).1 ++ '}' :: (cutBrace depth rest).2) :
    closes depth (cutBrace depth rest).1 = true := by
  induction rest generalizing depth with
  | nil => cases h
  | cons c rest ih =>
    rw [cutBrace] at h ⊢
    split at h
    · next hclose =>
      rw [if_pos hclose]
      exact decide_eq_true hclose.2
    · next hclose =>
      rw [if_neg hclose, closes_cons]
      exact ⟨hclose, ih (List.cons.inj h).2⟩

theorem closes_plain_append {plain : List Char} (h : ∀ c ∈ plain, c ≠ '{' ∧ c ≠ '}') (depth : Nat)
    (rest : List Char) : closes depth (plain ++ rest) = closes depth rest := by
  induction plain with
  | nil => rfl
  | cons c plain ih =>
    rw [List.forall_mem_cons] at h
    rw [List.cons_append, closes, openAfter, if_neg h.1.1, if_neg h.1.2, ih h.2]
    simp [h.1.2]

theorem closes_lowerAfter (before : List Char) (depth : Nat) (s : List Char) :
    closes depth (Text.lowerAfter before s) = closes depth s := by
  induction s generalizing before depth with
  | nil => rfl
  | cons c s ih =>
    rw [Text.lowerAfter]
    by_cases hbrace : c = '{' ∨ c = '}'
    · have hlower : (if c = 'Σ' then [if Text.endsWord before s then 'ς' else 'σ'] else
          Text.lowerChar c) = [c] := by
        rcases hbrace with rfl | rfl <;> rfl
      rw [hlower, List.singleton_append, closes, closes, ih]
    · rw [not_or] at hbrace
      rw [closes_plain_append, ih, ← List.singleton_append, closes_plain_append]
      · simpa using hbrace
      · split
        · split <;> exact List.forall_mem_singleton.mpr (by decide)
        · exact Text.lowerChar_of_not_brace hbrace.1 hbrace.2

theorem closes_without {c : Char} (hopen : c ≠ '{') (hclose : c ≠ '}') (depth : Nat) (s : List Char) :
    closes depth (Text.without c s) = closes depth s := by
  induction s generalizing depth with
  | nil => rfl
  | cons d s ih =>
    rw [Text.without] at ih ⊢
    by_cases hd : d = c
    · rw [List.filter_cons_of_neg (by simp [hd]), ih, ← List.singleton_append, closes_plain_append]
      simpa [hd] using ⟨hopen, hclose⟩
    · rw [List.filter_cons_of_pos (by simpa using hd), closes, closes, ih]

private theorem closes_normalize (depth : Nat) (s : List Char) :
    closes depth (normalize s) = closes depth s := by
  rw [normalize, Text.lower, closes_lowerAfter, closes_without (by decide) (by decide),
    closes_without (by decide) (by decide)]

/-! ## The parts of a variable -/

def variableBase (value : String) : List Char := (cutBrace 0 (value.toList.drop 2)).1

def variableTail (value : String) : List Char := (cutBrace 0 (value.toList.drop 2)).2

def variableName (value : String) : List Char := normalize (variableBase value)

def variableSpelling (value : String) : List Char := value.toList.take 2 ++ variableBase value

/-- What the compared form of a variable holds beside the name: all but the last character of the
closing brace and of the compared form of what follows it. -/
def ending (value : String) : List Char := ('}' :: normalize (variableTail value)).dropLast

def IsVariable (value : String) : Prop :=
  ∃ sign, isVariableSign sign = true ∧
    value.toList = sign :: '{' :: (variableBase value ++ '}' :: variableTail value)

private theorem isVariable_iff (value : String) :
    IsVariable value ↔ value.toList.head?.any isVariableSign = true ∧
      value.toList.tail = '{' :: (variableBase value ++ '}' :: variableTail value) := by
  unfold IsVariable
  cases value.toList with
  | nil => simp
  | cons c rest => simp [and_left_comm]

instance (value : String) : Decidable (IsVariable value) :=
  decidable_of_iff _ (isVariable_iff value).symm

theorem normalize_append_neutral {c : Char} (h : Text.IsNeutral c) (hblank : c ≠ ' ')
    (hscore : c ≠ '_') (s t : List Char) :
    normalize (s ++ c :: t) = normalize s ++ c :: normalize t := by
  simp only [normalize, Text.without, List.filter_append]
  rw [List.filter_cons_of_pos (by simpa using hblank),
    List.filter_cons_of_pos (by simpa using hscore), Text.lower_append_neutral h]

private theorem normalize_sign {c : Char} (h : isVariableSign c = true) (t : List Char) :
    normalize (c :: t) = c :: normalize t := by
  have hsign : Text.IsNeutral c ∧ c ≠ ' ' ∧ c ≠ '_' := by
    simp only [isVariableSign, Bool.or_eq_true, beq_iff_eq] at h
    rcases h with ((rfl | rfl) | rfl) | rfl <;> decide
  exact normalize_append_neutral hsign.1 hsign.2.1 hsign.2.2 [] t

namespace IsVariable

variable {value other : String} (h : IsVariable value) (ho : IsVariable other)
include h

theorem normalizeVariable_eq : normalizeVariable value.toList = variableName value ++ ending value := by
  obtain ⟨sign, hsign, hvalue⟩ := h
  have hopen (t : List Char) : normalize ('{' :: t) = '{' :: normalize t :=
    normalize_append_neutral (by decide) (by decide) (by decide) [] t
  rw [hvalue, normalizeVariable, normalize_sign hsign, hopen,
    normalize_append_neutral (by decide) (by decide) (by decide), List.drop_succ_cons,
    List.drop_succ_cons, List.drop_zero, List.dropLast_append_of_ne_nil (List.cons_ne_nil _ _)]
  rfl

theorem cutBrace_normalizeVariable :
    (cutBrace 0 (normalizeVariable value.toList)).1 = variableName value := by
  have hcloses : closes 0 (variableName value) = true := by
    obtain ⟨sign, -, hvalue⟩ := h
    rw [variableName, closes_normalize]
    exact closes_cutBrace (congrArg (List.drop 2) hvalue)
  rw [h.normalizeVariable_eq, ending]
  cases normalize (variableTail value) with
  | nil => rw [List.dropLast_singleton, List.append_nil, cutBrace_of_closes hcloses]
  | cons c rest => rw [List.dropLast_cons_cons, cutBrace_append hcloses]

private theorem toList_eq : value.toList = variableSpelling value ++ '}' :: variableTail value := by
  obtain ⟨sign, -, hvalue⟩ := h
  have hfront : value.toList.take 2 = [sign, '{'] := by rw [hvalue]; rfl
  rw [variableSpelling, hfront, hvalue]
  simp

include ho

theorem normalizedVariable_eq_iff :
    normalizedVariable value = normalizedVariable other ↔
      variableName value = variableName other ∧ ending value = ending other := by
  rw [normalizedVariable, normalizedVariable, String.ofList_inj]
  constructor
  · intro heq
    have hname : variableName value = variableName other := by
      rw [← h.cutBrace_normalizeVariable, heq, ho.cutBrace_normalizeVariable]
    rw [h.normalizeVariable_eq, ho.normalizeVariable_eq, hname, List.append_cancel_left_eq] at heq
    exact ⟨hname, heq⟩
  · rintro ⟨hname, hending⟩
    rw [h.normalizeVariable_eq, ho.normalizeVariable_eq, hname, hending]

/-- Variables are written alike exactly if they are spelled alike and the same follows them. -/
theorem eq_iff :
    value = other ↔ variableSpelling value = variableSpelling other ∧
      variableTail value = variableTail other := by
  constructor
  · rintro rfl
    exact ⟨rfl, rfl⟩
  · rintro ⟨hspelling, htail⟩
    rw [← String.toList_inj, h.toList_eq, ho.toList_eq, hspelling, htail]

end IsVariable

end Name

end SuiteLint
