import SuiteLint.Proofs.VariableForms

/-!
# The parts of a name

Two readers go through a name: one finds where its variables stand, the other leaves them out. Both see the
same parts in it: single characters, variables, and perhaps at the end a variable that is never closed.
-/

namespace SuiteLint.Name

/-! ## Braces that stay open -/

/-- With so many further braces open before a text, a brace that was opened before them is not closed in
it. -/
def StaysOpen (depth : Nat) (s : List Char) : Prop :=
  ∀ front, front <+: s → front.count '}' ≤ depth + front.count '{'

theorem count_cons_brace {c : Char} {depth : Nat} (h : ¬ (c = '}' ∧ depth = 0)) (s : List Char) :
    (c :: s).count '}' + openAfter depth c + s.count '{' =
      s.count '}' + depth + (c :: s).count '{' := by
  rw [openAfter, List.count_cons, List.count_cons]
  by_cases hopen : c = '{'
  · subst hopen
    simp only [beq_iff_eq, Char.reduceEq, if_false, if_true]
    omega
  · by_cases hclose : c = '}'
    · have hdepth : depth ≠ 0 := fun hdepth => h ⟨hclose, hdepth⟩
      subst hclose
      simp only [beq_iff_eq, Char.reduceEq, if_false, if_true]
      omega
    · simp only [beq_iff_eq, hopen, hclose, if_false]
      omega

@[simp] theorem staysOpen_cons (depth : Nat) (c : Char) (s : List Char) :
    StaysOpen depth (c :: s) ↔ ¬ (c = '}' ∧ depth = 0) ∧ StaysOpen (openAfter depth c) s := by
  constructor
  · intro h
    have hc : ¬ (c = '}' ∧ depth = 0) := by
      rintro ⟨rfl, rfl⟩
      exact absurd (h ['}'] ⟨s, rfl⟩) (by decide)
    refine ⟨hc, fun front hfront => ?_⟩
    have hcons := h (c :: front) (List.cons_prefix_cons.mpr ⟨rfl, hfront⟩)
    have hcount := count_cons_brace hc front
    omega
  · rintro ⟨hc, h⟩ front hfront
    cases front with
    | nil => exact Nat.zero_le _
    | cons d front =>
      obtain ⟨rfl, hprefix⟩ := List.cons_prefix_cons.mp hfront
      have hrest := h front hprefix
      have hcount := count_cons_brace hc front
      omega

theorem closes_iff (depth : Nat) (s : List Char) :
    closes depth s = true ↔ StaysOpen depth s ∧ s.count '}' = depth + s.count '{' := by
  induction s generalizing depth with
  | nil =>
    have hopen : StaysOpen depth [] := fun front hfront => by simp [List.prefix_nil.mp hfront]
    simp [closes, hopen, eq_comm]
  | cons c s ih =>
    rw [closes_cons, staysOpen_cons, ih, and_assoc]
    refine and_congr_right fun hc => and_congr_right fun _ => ?_
    have hcount := count_cons_brace hc s
    omega

theorem staysOpen_or_closes (depth : Nat) (s : List Char) :
    StaysOpen depth s ∨ ∃ base tail, s = base ++ '}' :: tail ∧ closes depth base = true := by
  induction s generalizing depth with
  | nil => exact Or.inl fun front hfront => by simp [List.prefix_nil.mp hfront]
  | cons c s ih =>
    by_cases hc : c = '}' ∧ depth = 0
    · obtain ⟨rfl, rfl⟩ := hc
      exact Or.inr ⟨[], s, rfl, rfl⟩
    · rcases ih (openAfter depth c) with hopen | ⟨base, tail, rfl, hbase⟩
      · exact Or.inl ((staysOpen_cons depth c s).mpr ⟨hc, hopen⟩)
      · exact Or.inr ⟨c :: base, tail, rfl, (closes_cons depth c base).mpr ⟨hc, hbase⟩⟩

/-! ## What the two readers do inside a variable -/

/-- Inside a variable that is not closed here, a reader goes on with the braces that are open then. -/
private theorem inside_cons {α : Type} {c : Char} {depth : Nat} (goOn : Nat → α) (closed : α) :
    ¬ (c = '}' ∧ depth = 0) →
      (if c = '{' then goOn (depth + 1)
        else if c = '}' then match depth with | depth + 1 => goOn depth | 0 => closed
        else goOn depth) = goOn (openAfter depth c) := by
  intro h
  rw [openAfter]
  by_cases hopen : c = '{'
  · rw [if_pos hopen, if_pos hopen]
  · by_cases hclose : c = '}'
    · cases depth with
      | zero => exact absurd ⟨hclose, rfl⟩ h
      | succ depth => rw [if_neg hopen, if_neg hopen, if_pos hclose, if_pos hclose, Nat.add_sub_cancel]
    · rw [if_neg hopen, if_neg hopen, if_neg hclose, if_neg hclose]

theorem findFrom_inside_cons {c : Char} {depth : Nat} (h : ¬ (c = '}' ∧ depth = 0)) (index start : Nat)
    (escaped : Bool) (rest : List Char) :
    findFrom index escaped (some (start, depth)) (c :: rest) =
      findFrom (index + 1) false (some (start, openAfter depth c)) rest := by
  rw [findFrom.eq_def]
  exact inside_cons (fun depth => findFrom (index + 1) false (some (start, depth)) rest) _ h

theorem removeFrom_inside_cons {c : Char} {depth : Nat} (h : ¬ (c = '}' ∧ depth = 0))
    (rest : List Char) :
    removeFrom (.inside '{' '}' depth) (c :: rest) =
      removeFrom (.inside '{' '}' (openAfter depth c)) rest := by
  rw [removeFrom.eq_def]
  exact inside_cons (fun depth => removeFrom (.inside '{' '}' depth) rest) _ h

theorem findFrom_of_staysOpen {depth : Nat} {rest : List Char} (h : StaysOpen depth rest)
    (index start : Nat) (escaped : Bool) :
    findFrom index escaped (some (start, depth)) rest = [] := by
  induction rest generalizing depth index escaped with
  | nil => rfl
  | cons c rest ih =>
    rw [staysOpen_cons] at h
    rw [findFrom_inside_cons h.1, ih h.2]

theorem findFrom_of_closes {depth : Nat} {base : List Char} (h : closes depth base = true)
    (index start : Nat) (escaped : Bool) (tail : List Char) :
    findFrom index escaped (some (start, depth)) (base ++ '}' :: tail) =
      (start, index + base.length + 1) :: findFrom (index + base.length + 1) false none tail := by
  induction base generalizing depth index escaped with
  | nil =>
    obtain rfl : depth = 0 := of_decide_eq_true h
    rfl
  | cons c base ih =>
    rw [closes_cons] at h
    rw [List.cons_append, findFrom_inside_cons h.1, ih h.2, List.length_cons]
    have hindex : index + 1 + base.length = index + (base.length + 1) := by omega
    rw [hindex]

theorem removeFrom_of_closes {depth : Nat} {base tail : List Char} (h : closes depth base = true)
    (hitem : tail.head? ≠ some '[') :
    removeFrom (.inside '{' '}' depth) (base ++ '}' :: tail) = removeFrom (.outside false) tail := by
  induction base generalizing depth with
  | nil =>
    obtain rfl : depth = 0 := of_decide_eq_true h
    rw [List.nil_append, removeFrom.eq_def]
    dsimp only
    rw [if_neg (by decide), if_pos rfl]
    split
    · next rest => exact absurd rfl hitem
    · rfl
  | cons c base ih =>
    rw [closes_cons] at h
    rw [List.cons_append, removeFrom_inside_cons h.1, ih h.2]

/-! ## Names in parts -/

/-- A part of a name: a character, a variable with what stands in its braces, or a variable that is not
closed with all that follows. -/
inductive Part where
  | plain (c : Char)
  | closed (sign : Char) (base : List Char)
  | unclosed (sign : Char) (rest : List Char)

namespace Part

def source : Part → List Char
  | plain c => [c]
  | closed sign base => sign :: '{' :: (base ++ ['}'])
  | unclosed sign rest => sign :: '{' :: rest

def isClosed : Part → Bool
  | closed _ _ => true
  | _ => false

private theorem length_source_pos (part : Part) : 0 < part.source.length := by
  cases part <;> simp [source]

end Part

def source (parts : List Part) : List Char := parts.flatMap Part.source

@[simp] theorem source_nil : source [] = [] := rfl

@[simp] theorem source_cons (part : Part) (parts : List Part) :
    source (part :: parts) = part.source ++ source parts := List.flatMap_cons

@[simp] theorem source_append (front back : List Part) :
    source (front ++ back) = source front ++ source back := List.flatMap_append

def StartsVariable (escaped : Bool) (s : List Char) : Prop :=
  escaped = false ∧ ∃ sign rest, isVariableSign sign = true ∧ s = sign :: '{' :: rest

/-- A text is made of parts when it is read from the left, perhaps after an escape. -/
inductive Reads : Bool → List Char → List Part → Prop
  | nil (escaped : Bool) : Reads escaped [] []
  | plain {escaped : Bool} {c : Char} {rest : List Char} {parts : List Part}
      (h : ¬ StartsVariable escaped (c :: rest)) (hrest : Reads (c == '\\') rest parts) :
      Reads escaped (c :: rest) (.plain c :: parts)
  | closed {sign : Char} {base tail : List Char} {parts : List Part}
      (hsign : isVariableSign sign = true) (hbase : closes 0 base = true)
      (htail : Reads false tail parts) :
      Reads false (sign :: '{' :: (base ++ '}' :: tail)) (.closed sign base :: parts)
  | unclosed {sign : Char} {rest : List Char} (hsign : isVariableSign sign = true)
      (hrest : StaysOpen 0 rest) : Reads false (sign :: '{' :: rest) [.unclosed sign rest]

theorem exists_reads (escaped : Bool) (name : List Char) : ∃ parts, Reads escaped name parts := by
  -- After a variable the rest is shorter by more than a character, so the induction is on the length.
  induction hlength : name.length using Nat.strongRecOn generalizing escaped name with
  | ind n ih =>
    subst hlength
    by_cases hstart : StartsVariable escaped name
    · obtain ⟨rfl, sign, rest, hsign, rfl⟩ := hstart
      rcases staysOpen_or_closes 0 rest with hopen | ⟨base, tail, rfl, hbase⟩
      · exact ⟨_, .unclosed hsign hopen⟩
      · have hshorter : tail.length < (sign :: '{' :: (base ++ '}' :: tail)).length := by
          simp only [List.length_cons, List.length_append]
          omega
        obtain ⟨parts, hparts⟩ := ih _ hshorter false tail rfl
        exact ⟨_, .closed hsign hbase hparts⟩
    · cases name with
      | nil => exact ⟨[], .nil escaped⟩
      | cons c rest =>
        obtain ⟨parts, hparts⟩ := ih _ (Nat.lt_succ_self _) (c == '\\') rest rfl
        exact ⟨_, .plain hstart hparts⟩

theorem findFrom_plain_cons {escaped : Bool} {c : Char} {rest : List Char}
    (h : ¬ StartsVariable escaped (c :: rest)) (index : Nat) :
    findFrom index escaped none (c :: rest) = findFrom (index + 1) (c == '\\') none rest := by
  rw [findFrom.eq_def]
  dsimp only
  split
  · next rest' =>
    rw [if_neg]
    simp only [Bool.and_eq_true, Bool.not_eq_true']
    rintro ⟨hsign, hescaped⟩
    exact h ⟨hescaped, c, rest', hsign, rfl⟩
  · rfl

theorem removeFrom_plain_cons {escaped : Bool} {c : Char} {rest : List Char}
    (h : ¬ StartsVariable escaped (c :: rest)) :
    removeFrom (.outside escaped) (c :: rest) = c :: removeFrom (.outside (c == '\\')) rest := by
  rw [removeFrom.eq_def]
  dsimp only
  split
  · next rest' =>
    rw [if_neg]
    simp only [Bool.and_eq_true, Bool.not_eq_true']
    rintro ⟨hsign, hescaped⟩
    exact h ⟨hescaped, c, rest', hsign, rfl⟩
  · rfl

def spansFrom (index : Nat) : List Part → List (Nat × Nat)
  | [] => []
  | part :: parts =>
    (if part.isClosed then [(index, index + part.source.length)] else []) ++
      spansFrom (index + part.source.length) parts

namespace Reads

variable {escaped : Bool} {name : List Char} {parts : List Part}

theorem source_eq (h : Reads escaped name parts) : source parts = name := by
  induction h with
  | nil => rfl
  | plain _ _ ih => simp [Part.source, ih]
  | closed _ _ _ ih => simp [Part.source, ih]
  | unclosed => simp [Part.source]

theorem findFrom_eq (h : Reads escaped name parts) (index : Nat) :
    findFrom index escaped none name = spansFrom index parts := by
  induction h generalizing index with
  | nil => rfl
  | plain hstart _ ih => simp [findFrom_plain_cons hstart, ih, spansFrom, Part.isClosed, Part.source]
  | @closed sign base tail parts hsign hbase _ ih =>
    have hstop : index + 2 + base.length + 1 = index + (Part.closed sign base).source.length := by
      simp only [Part.source, List.length_cons, List.length_append, List.length_nil]
      omega
    rw [findFrom, if_pos (by simp [hsign]), findFrom_of_closes hbase, ih, hstop]
    rfl
  | unclosed hsign hrest =>
    rw [findFrom, if_pos (by simp [hsign]), findFrom_of_staysOpen hrest]
    rfl

end Reads

/-! ## Where the parts stand -/

theorem bounds_of_mem_spansFrom {index : Nat} {parts : List Part} {v : Nat × Nat}
    (h : v ∈ spansFrom index parts) :
    index ≤ v.1 ∧ v.1 < v.2 ∧ v.2 ≤ index + (source parts).length := by
  induction parts generalizing index with
  | nil => cases h
  | cons part parts ih =>
    rw [spansFrom, List.mem_append] at h
    rw [source_cons, List.length_append]
    have hpos := part.length_source_pos
    rcases h with h | h
    · split at h
      · obtain rfl := List.mem_singleton.mp h
        dsimp only
        omega
      · cases h
    · have hbounds := ih h
      omega

theorem pairwise_spansFrom (index : Nat) (parts : List Part) :
    (spansFrom index parts).Pairwise fun u v => u.2 ≤ v.1 := by
  induction parts generalizing index with
  | nil => exact List.Pairwise.nil
  | cons part parts ih =>
    rw [spansFrom, List.pairwise_append]
    refine ⟨?_, ih _, fun u hu v hv => ?_⟩
    · split
      · exact List.pairwise_singleton _ _
      · exact List.Pairwise.nil
    · split at hu
      · obtain rfl := List.mem_singleton.mp hu
        exact (bounds_of_mem_spansFrom hv).1
      · cases hu

theorem spansFrom_append (index : Nat) (front back : List Part) :
    spansFrom index (front ++ back) =
      spansFrom index front ++ spansFrom (index + (source front).length) back := by
  induction front generalizing index with
  | nil => rfl
  | cons part front ih =>
    rw [List.cons_append, spansFrom, spansFrom, ih, source_cons, List.length_append, Nat.add_assoc,
      List.append_assoc]

theorem mem_spansFrom_iff {index : Nat} {parts : List Part} {v : Nat × Nat} :
    v ∈ spansFrom index parts ↔
      ∃ before part after, parts = before ++ part :: after ∧ part.isClosed = true ∧
        v.1 = index + (source before).length ∧ v.2 = v.1 + part.source.length := by
  constructor
  · intro h
    induction parts generalizing index with
    | nil => cases h
    | cons first parts ih =>
      rw [spansFrom, List.mem_append] at h
      rcases h with h | h
      · split at h
        · next hclosed =>
          obtain rfl := List.mem_singleton.mp h
          exact ⟨[], first, parts, rfl, hclosed, rfl, rfl⟩
        · cases h
      · obtain ⟨before, part, after, rfl, hclosed, hstart, hstop⟩ := ih h
        refine ⟨first :: before, part, after, rfl, hclosed, ?_, hstop⟩
        rw [hstart, source_cons, List.length_append, Nat.add_assoc]
  · rintro ⟨before, part, after, rfl, hclosed, hstart, hstop⟩
    have hv : v = (index + (source before).length,
        index + (source before).length + part.source.length) :=
      Prod.ext hstart (hstart ▸ hstop)
    rw [spansFrom_append, spansFrom, if_pos hclosed, hv]
    exact List.mem_append_right _ (List.mem_cons_self)

theorem exists_part_at {parts : List Part} {i : Nat} (h : i < (source parts).length) :
    ∃ before part after, parts = before ++ part :: after ∧ (source before).length ≤ i ∧
      i < (source before).length + part.source.length := by
  induction parts generalizing i with
  | nil => cases h
  | cons first parts ih =>
    rw [source_cons, List.length_append] at h
    by_cases hfirst : i < first.source.length
    · refine ⟨[], first, parts, rfl, Nat.zero_le _, ?_⟩
      rwa [source_nil, List.length_nil, Nat.zero_add]
    · have hrest : i - first.source.length < (source parts).length := by omega
      obtain ⟨before, part, after, rfl, hstart, hstop⟩ := ih hrest
      refine ⟨first :: before, part, after, rfl, ?_, ?_⟩
      · rw [source_cons, List.length_append]
        omega
      · rw [source_cons, List.length_append]
        omega

/-! ## Escapes, and where variables open -/

def escapedAfter (escaped : Bool) (s : List Char) : Bool := (s.getLast?.map (· == '\\')).getD escaped

theorem escapedAfter_append (escaped : Bool) (s t : List Char) :
    escapedAfter escaped (s ++ t) = escapedAfter (escapedAfter escaped s) t := by
  rw [escapedAfter, escapedAfter, List.getLast?_append]
  cases t.getLast? <;> rfl

private theorem escapedAfter_closed (escaped : Bool) (sign : Char) (base : List Char) :
    escapedAfter escaped (Part.closed sign base).source = false := by
  rw [Part.source, ← List.cons_append, ← List.cons_append, escapedAfter_append]
  rfl

/-- After some of the parts, the others are read. -/
theorem Reads.back {escaped : Bool} {name : List Char} {before after : List Part}
    (h : Reads escaped name (before ++ after)) :
    Reads (escapedAfter escaped (source before)) (source after) after := by
  induction before generalizing escaped name with
  | nil => exact h.source_eq ▸ h
  | cons part before ih =>
    rw [source_cons, escapedAfter_append]
    generalize hsplit : part :: before ++ after = parts at h
    cases h with
    | nil => cases hsplit
    | plain hstart hrest =>
      obtain ⟨rfl, rfl⟩ := List.cons.inj hsplit
      exact ih hrest
    | closed hsign hbase htail =>
      obtain ⟨rfl, rfl⟩ := List.cons.inj hsplit
      rw [escapedAfter_closed]
      exact ih htail
    | unclosed =>
      obtain ⟨rfl, hnil⟩ := List.cons.inj hsplit
      obtain ⟨rfl, rfl⟩ := List.append_eq_nil_iff.mp hnil
      exact .nil _

/-- A variable opens at a place: there is a sign with an opening brace behind it, and no escape before
it. -/
def Opens (name : List Char) (i : Nat) : Prop :=
  name[i]?.any isVariableSign = true ∧ name[i + 1]? = some '{' ∧ (i = 0 ∨ name[i - 1]? ≠ some '\\')

instance (name : List Char) (i : Nat) : Decidable (Opens name i) := inferInstanceAs (Decidable (_ ∧ _))

theorem opens_append_iff (front back : List Char) :
    Opens (front ++ back) front.length ↔ StartsVariable (escapedAfter false front) back := by
  have hback : back[0]?.any isVariableSign = true ∧ back[1]? = some '{' ↔
      ∃ sign rest, isVariableSign sign = true ∧ back = sign :: '{' :: rest := by
    match back with
    | [] => simp
    | [c] => simp
    | c :: d :: rest =>
      constructor
      · rintro ⟨hsign, hbrace⟩
        exact ⟨c, rest, hsign, by rw [Option.some.inj hbrace]⟩
      · rintro ⟨sign, rest', hsign, heq⟩
        obtain ⟨rfl, hrest⟩ := List.cons.inj heq
        exact ⟨hsign, congrArg some (List.cons.inj hrest).1⟩
  have hfront : (front.length = 0 ∨ (front ++ back)[front.length - 1]? ≠ some '\\') ↔
      escapedAfter false front = false := by
    rw [escapedAfter, List.length_eq_zero_iff, List.getLast?_eq_getElem?]
    cases front with
    | nil => simp
    | cons c front =>
      rw [List.getElem?_append_left (by simp)]
      simp
  rw [Opens, StartsVariable, ← hback, ← hfront, List.getElem?_append_right (Nat.le_refl _),
    List.getElem?_append_right (Nat.le_add_right _ 1), Nat.sub_self, Nat.add_sub_cancel_left,
    ← and_assoc, and_comm]

def AllClosed (name : List Char) : Prop :=
  ∀ i < name.length, Opens name i → ∃ v ∈ findVariables name, v.1 ≤ i ∧ i < v.2

instance (name : List Char) : Decidable (AllClosed name) :=
  inferInstanceAs (Decidable (∀ i < name.length, _))

namespace Reads

variable {name : List Char} {parts : List Part} (h : Reads false name parts)
include h

private theorem opens_iff {before after : List Part} (hsplit : parts = before ++ after) :
    Opens name (source before).length ↔
      StartsVariable (escapedAfter false (source before)) (source after) := by
  rw [← h.source_eq, hsplit, source_append, opens_append_iff]

theorem opens_iff_not_plain {before after : List Part} {part : Part}
    (hsplit : parts = before ++ part :: after) :
    Opens name (source before).length ↔ ∀ c, part ≠ .plain c := by
  rw [h.opens_iff hsplit]
  subst hsplit
  have hpart := h.back
  generalize escapedAfter false (source before) = escaped at hpart ⊢
  generalize htext : source (part :: after) = text at hpart ⊢
  cases hpart with
  | plain hstart => exact ⟨fun h => absurd h hstart, fun h => absurd rfl (h _)⟩
  | closed hsign => exact ⟨fun _ c => Part.noConfusion, fun _ => ⟨rfl, _, _, hsign, rfl⟩⟩
  | unclosed hsign => exact ⟨fun _ c => Part.noConfusion, fun _ => ⟨rfl, _, _, hsign, rfl⟩⟩

theorem closed_of_split {before after : List Part} {sign : Char} {base : List Char}
    (hsplit : parts = before ++ .closed sign base :: after) :
    isVariableSign sign = true ∧ closes 0 base = true := by
  subst hsplit
  have hpart := h.back
  generalize escapedAfter false (source before) = escaped at hpart
  generalize source (.closed sign base :: after) = text at hpart
  cases hpart with
  | closed hsign hbase => exact ⟨hsign, hbase⟩

theorem unclosed_of_split {before after : List Part} {sign : Char} {rest : List Char}
    (hsplit : parts = before ++ .unclosed sign rest :: after) :
    isVariableSign sign = true ∧ StaysOpen 0 rest ∧ after = [] := by
  subst hsplit
  have hpart := h.back
  generalize escapedAfter false (source before) = escaped at hpart
  generalize source (.unclosed sign rest :: after) = text at hpart
  cases hpart with
  | unclosed hsign hrest => exact ⟨hsign, hrest, rfl⟩

theorem findVariables_eq : findVariables name = spansFrom 0 parts := h.findFrom_eq 0

theorem le_of_unclosed {before after : List Part} {sign : Char} {rest : List Char}
    (hsplit : parts = before ++ .unclosed sign rest :: after) {v : Nat × Nat}
    (hv : v ∈ findVariables name) : v.2 ≤ (source before).length := by
  rw [h.findVariables_eq, hsplit, (h.unclosed_of_split hsplit).2.2, spansFrom_append] at hv
  have hbefore : v ∈ spansFrom 0 before :=
    (List.mem_append.mp hv).resolve_right (by simp [spansFrom, Part.isClosed])
  have hbounds := bounds_of_mem_spansFrom hbefore
  omega

theorem not_unclosed (hclosed : AllClosed name) {sign : Char} {rest : List Char} :
    .unclosed sign rest ∉ parts := by
  intro hmem
  obtain ⟨before, after, hsplit⟩ := List.append_of_mem hmem
  have hopens : Opens name (source before).length :=
    (h.opens_iff_not_plain hsplit).mpr fun c => Part.noConfusion
  have hlength : (source before).length < name.length := by
    rw [← h.source_eq, hsplit, source_append, List.length_append, source_cons]
    simp [Part.source]
  obtain ⟨v, hv, -, hstop⟩ := hclosed _ hlength hopens
  have hle := h.le_of_unclosed hsplit hv
  omega

end Reads

/-! ## Leaving variables out -/

def isOutside (spans : List (Nat × Nat)) (i : Nat) : Bool := spans.all fun v => i < v.1 || v.2 ≤ i

def withoutSpans (spans : List (Nat × Nat)) (name : List Char) : List Char :=
  (name.zipIdx.filter fun entry => isOutside spans entry.2).map (·.1)

/-- What remains of a part when variables are cut out. -/
def Part.kept (part : Part) : List Char := if part.isClosed then [] else part.source

theorem isOutside_of_mem_first {index : Nat} {part : Part} (parts : List Part) {entry : Char × Nat}
    (h : entry ∈ part.source.zipIdx index) :
    isOutside (spansFrom index (part :: parts)) entry.2 = !part.isClosed := by
  have hplace := List.mem_zipIdx h
  have hlater : isOutside (spansFrom (index + part.source.length) parts) entry.2 = true := by
    rw [isOutside, List.all_eq_true]
    intro v hv
    have hbounds := bounds_of_mem_spansFrom hv
    simp only [Bool.or_eq_true, decide_eq_true_eq]
    omega
  rw [spansFrom, isOutside, List.all_append]
  rw [isOutside] at hlater
  rw [hlater, Bool.and_true]
  cases part.isClosed with
  | false => rfl
  | true =>
    simp only [if_true, List.all_cons, List.all_nil, Bool.and_true, Bool.not_true,
      Bool.or_eq_false_iff, decide_eq_false_iff_not]
    omega

theorem isOutside_of_mem_rest {index : Nat} (part : Part) {parts : List Part} {entry : Char × Nat}
    (h : entry ∈ (source parts).zipIdx (index + part.source.length)) :
    isOutside (spansFrom index (part :: parts)) entry.2 =
      isOutside (spansFrom (index + part.source.length) parts) entry.2 := by
  have hplace := List.mem_zipIdx h
  rw [spansFrom, isOutside, isOutside, List.all_append]
  cases part.isClosed with
  | false => rfl
  | true =>
    have hout : decide (index + part.source.length ≤ entry.2) = true := decide_eq_true hplace.1
    simp [hout]

/-- Cutting out the places of the variables leaves the other parts. -/
theorem filter_isOutside_spansFrom (index : Nat) (parts : List Part) :
    (((source parts).zipIdx index).filter fun entry =>
      isOutside (spansFrom index parts) entry.2).map (·.1) = parts.flatMap Part.kept := by
  induction parts generalizing index with
  | nil => rfl
  | cons part parts ih =>
    have hkept : ((part.source.zipIdx index).filter fun _ => !part.isClosed).map (·.1) = part.kept := by
      rw [Part.kept]
      cases part.isClosed with
      | false =>
        have hall : (part.source.zipIdx index).filter (fun _ => !false) = part.source.zipIdx index :=
          List.filter_eq_self.mpr fun _ _ => rfl
        rw [hall]
        exact List.zipIdx_map_fst index part.source
      | true => simp
    rw [source_cons, List.zipIdx_append, List.filter_append, List.map_append,
      List.filter_congr fun _ => isOutside_of_mem_first parts,
      List.filter_congr fun _ => isOutside_of_mem_rest part, ih, hkept, List.flatMap_cons]

/-- Where no part is left open and no item in brackets follows a variable, leaving the variables out
leaves the other parts. -/
theorem Reads.removeFrom_eq {escaped : Bool} {name : List Char} {parts : List Part}
    (h : Reads escaped name parts) (hclosed : ∀ sign rest, .unclosed sign rest ∉ parts)
    (hitem : ∀ before part after, parts = before ++ part :: after → part.isClosed = true →
      (source after).head? ≠ some '[') :
    removeFrom (.outside escaped) name = parts.flatMap Part.kept := by
  induction h with
  | nil => rfl
  | @plain escaped c rest parts hstart hrest ih =>
    have hmore := ih (fun sign rest hmem => hclosed sign rest (List.mem_cons_of_mem _ hmem))
      fun before part after hsplit => hitem (.plain c :: before) part after (by rw [hsplit]; rfl)
    rw [removeFrom_plain_cons hstart, hmore]
    rfl
  | @closed sign base tail parts hsign hbase htail ih =>
    have hmore := ih (fun sign rest hmem => hclosed sign rest (List.mem_cons_of_mem _ hmem))
      fun before part after hsplit => hitem (.closed sign base :: before) part after (by rw [hsplit]; rfl)
    have hhead : tail.head? ≠ some '[' := htail.source_eq ▸ hitem [] _ parts rfl rfl
    rw [removeFrom, if_pos (by simp [hsign]), removeFrom_of_closes hbase hhead, hmore]
    rfl
  | unclosed => exact absurd List.mem_cons_self (hclosed _ _)

/-- Where every variable that opens is closed and no item in brackets follows one, as in `${a}[0]`, leaving
the variables out is cutting out the places that are found for them. -/
theorem removeVariables_eq_withoutSpans (name : List Char) (hclosed : AllClosed name)
    (hitem : ∀ v ∈ findVariables name, name[v.2]? ≠ some '[') :
    removeVariables name = withoutSpans (findVariables name) name := by
  obtain ⟨parts, hparts⟩ := exists_reads false name
  have hfollow : ∀ before part after, parts = before ++ part :: after → part.isClosed = true →
      (source after).head? ≠ some '[' := by
    intro before part after hsplit hpart
    have hv : ((source before).length, (source before).length + part.source.length) ∈
        findVariables name := by
      rw [hparts.findVariables_eq, mem_spansFrom_iff]
      exact ⟨before, part, after, hsplit, hpart, (Nat.zero_add _).symm, rfl⟩
    have hnext : name[(source before).length + part.source.length]? = (source after).head? := by
      rw [← hparts.source_eq, hsplit, source_append, source_cons, ← List.append_assoc,
        ← List.length_append, List.getElem?_append_right (Nat.le_refl _), Nat.sub_self,
        List.head?_eq_getElem?]
    exact hnext ▸ hitem _ hv
  have hremoved := hparts.removeFrom_eq (fun _ _ => hparts.not_unclosed hclosed) hfollow
  have hcut := filter_isOutside_spansFrom 0 parts
  rw [hparts.source_eq, ← hparts.findVariables_eq] at hcut
  rw [removeVariables, hremoved, withoutSpans, hcut]

/-- Variables side by side, one in another, and one that is escaped. -/
theorem removeVariables_eq_withoutSpans_nested :
    AllClosed "a$\x7bb\x7d@\x7bc$\x7bd\x7d\x7de\\$\x7bf\x7d".toList ∧
      (∀ v ∈ findVariables "a$\x7bb\x7d@\x7bc$\x7bd\x7d\x7de\\$\x7bf\x7d".toList,
        "a$\x7bb\x7d@\x7bc$\x7bd\x7d\x7de\\$\x7bf\x7d".toList[v.2]? ≠ some '[') ∧
      removeVariables "a$\x7bb\x7d@\x7bc$\x7bd\x7d\x7de\\$\x7bf\x7d".toList =
        "ae\\$\x7bf\x7d".toList := by
  have hclosed : AllClosed "a$\x7bb\x7d@\x7bc$\x7bd\x7d\x7de\\$\x7bf\x7d".toList := by decide +kernel
  have hitem : ∀ v ∈ findVariables "a$\x7bb\x7d@\x7bc$\x7bd\x7d\x7de\\$\x7bf\x7d".toList,
      "a$\x7bb\x7d@\x7bc$\x7bd\x7d\x7de\\$\x7bf\x7d".toList[v.2]? ≠ some '[' := by decide +kernel
  exact ⟨hclosed, hitem, (removeVariables_eq_withoutSpans _ hclosed hitem).trans (by decide +kernel)⟩

end SuiteLint.Name
