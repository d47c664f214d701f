import SuiteLint.Proofs.TagCleaning
import SuiteLint.Proofs.TextParts

/-!
# Documentation with tidy tags

The check of tag names leaves a documentation either as it is or tidied: with the tags of its last line
free of commas. Tidying twice is tidying once.
-/

namespace SuiteLint

namespace Text

/-! ## The word that announces tags -/

theorem lowerAfter_append_singleton (before s : List Char) (c : Char) :
    ∃ front, lowerAfter before (s ++ [c]) = front ++ lowerAfter (s.reverse ++ before) [c] := by
  induction s generalizing before with
  | nil => exact ⟨[], rfl⟩
  | cons d s ih =>
    obtain ⟨front, hfront⟩ := ih (d :: before)
    rw [List.cons_append, lowerAfter, hfront, List.reverse_cons, List.append_assoc,
      ← List.append_assoc]
    exact ⟨_, rfl⟩

theorem dropEndWhile_tagWord {s : List Char} (h : lower s = "tags:".toList) :
    dropEndWhile (· == ',') s = s := by
  rcases List.eq_nil_or_concat s with rfl | ⟨front, c, rfl⟩
  · rfl
  · rw [List.concat_eq_append] at h ⊢
    have hc : c ≠ ',' := by
      rintro rfl
      obtain ⟨image, himage⟩ := lowerAfter_append_singleton [] front ','
      have hlast := congrArg List.getLast? (himage.symm.trans h)
      simp [lowerAfter, lowerChar] at hlast
    simp [dropEndWhile, hc]

private theorem lowerChar_of_isBlank {c : Char} (h : isBlank c = true) : lowerChar c = [c] := by
  have hcodes : ∀ n ∈ blankCodes, lowerChar (Char.ofNat n) = [Char.ofNat n] := by decide +kernel
  rw [← Char.ofNat_toNat c]
  exact hcodes c.toNat (toNat_mem_blankCodes h)

theorem isBlankText_tagWord {s : List Char} (h : lower s = "tags:".toList) :
    isBlankText s = false := by
  cases s with
  | nil => cases h
  | cons c rest =>
    have hc : isBlank c = false := by
      rw [Bool.eq_false_iff]
      intro hblank
      have hsigma : c ≠ 'Σ' := by
        rintro rfl
        exact absurd hblank (by decide)
      rw [lower, lowerAfter, if_neg hsigma, lowerChar_of_isBlank hblank] at h
      obtain rfl : c = 't' := (List.cons.inj h).1
      exact absurd hblank (by decide)
    simp [isBlankText, hc]

end Text

namespace Statement

/-- Where lines are cut depends on the kinds of the tokens only: another last line with the same
kinds is cut off at the same place. -/
theorem cutLines_last {ts : List Token} {before : List (List Token)} {last last' : List Token}
    (h : cutLines ts = before ++ [last]) (hkinds : last'.map (·.kind) = last.map (·.kind)) :
    cutLines (before.flatten ++ last') = before ++ [last'] := by
  induction ts generalizing before last last' with
  | nil => simp [cutLines] at h
  | cons t ts ih =>
    by_cases ht : t.kind = .eol
    · rw [cutLines, if_pos ht] at h
      cases before with
      | nil =>
        obtain ⟨rfl, -⟩ := List.cons.inj h
        obtain ⟨t', rfl, ht'⟩ := List.map_eq_singleton_iff.mp hkinds
        simp [cutLines, ht', ht]
      | cons line before =>
        obtain ⟨rfl, hrest⟩ := List.cons.inj h
        simpa [cutLines, ht] using ih hrest hkinds
    · rw [cutLines, if_neg ht] at h
      cases hts : cutLines ts with
      | nil =>
        rw [hts] at h
        cases before with
        | nil =>
          obtain ⟨rfl, -⟩ := List.cons.inj h
          obtain ⟨t', rfl, ht'⟩ := List.map_eq_singleton_iff.mp hkinds
          simp [cutLines, ht', ht]
        | cons line before => simp at h
      | cons first more =>
        rw [hts] at h
        cases before with
        | nil =>
          obtain ⟨rfl, hmore⟩ := List.cons.inj h
          obtain ⟨t', first', rfl, ht', hfirst⟩ := List.map_eq_cons_iff.mp hkinds
          have hcuts : cutLines ts = [] ++ [first] := by rw [hts, hmore]; rfl
          have hcut := ih hcuts hfirst
          simp only [List.flatten_nil, List.nil_append] at hcut ⊢
          rw [cutLines, if_neg (ht' ▸ ht), hcut]
        | cons line before =>
          obtain ⟨rfl, hmore⟩ := List.cons.inj h
          have hcuts : cutLines ts = (first :: before) ++ [last] := by rw [hts, hmore]; rfl
          have hcut := ih hcuts hkinds
          simp only [List.flatten_cons, List.cons_append, List.append_assoc] at hcut ⊢
          rw [cutLines, if_neg ht, hcut]

end Statement

/-! ## Tidying one documentation -/

def Token.masked (t : Token) : Token := if t.kind = .argument then { t with value := "" } else t

namespace Token

variable (t : Token)

@[simp] theorem kind_masked : t.masked.kind = t.kind := by unfold masked; split <;> rfl

@[simp] theorem line_masked : t.masked.line = t.line := by unfold masked; split <;> rfl

@[simp] theorem column_masked : t.masked.column = t.column := by unfold masked; split <;> rfl

theorem masked_eq_self {t : Token} (h : t.kind ≠ .argument) : t.masked = t := if_neg h

end Token

namespace Check.Tag

def IsTagWord (t : Token) : Prop := isText t = true ∧ Text.lower t.value.toList = "tags:".toList

private theorem IsTagWord.clean_eq {t : Token} (h : IsTagWord t) : clean t = t := by
  rw [clean, if_pos h.1, withoutCommas, Text.dropEndWhile_tagWord h.2, String.ofList_toList]

/-- A line of tags is made of what is no text, the word that announces them, and the rest. -/
theorem isTagLine_iff (line : List Token) :
    isTagLine line = true ↔ ∃ pre t post, line = pre ++ t :: post ∧
      (∀ u ∈ pre, isText u = false) ∧ IsTagWord t := by
  constructor
  · intro h
    unfold isTagLine at h
    cases hf : line.filter isText with
    | nil => simp [hf] at h
    | cons t rest =>
      rw [hf] at h
      obtain ⟨pre, post, rfl, hpre, ht, -⟩ := List.filter_eq_cons_iff.mp hf
      exact ⟨pre, t, post, rfl, fun u hu => by simpa using hpre u hu, ht, by simpa using h⟩
  · rintro ⟨pre, t, post, rfl, hpre, ht, hword⟩
    have hnil : pre.filter isText = [] := List.filter_eq_nil_iff.mpr fun u hu => by simp [hpre u hu]
    rw [isTagLine, List.filter_append, hnil, List.nil_append, List.filter_cons_of_pos ht]
    simp [hword]

end Check.Tag

open Check.Tag

namespace Statement

def areDocKinds : List TokenKind → Bool
  | .documentation :: kinds => kinds.all (· = .argument)
  | _ => false

/-- A documentation as it stands in a file: no fault was found in it, and its data are the name of the
setting and arguments. -/
def isPlainDoc (s : Statement) : Bool :=
  s.kind = .documentation && s.errors.isEmpty && areDocKinds (s.dataTokens.map (·.kind))

def tidied (s : Statement) : Statement :=
  if s.isPlainDoc then
    match inDocumentation s with
    | .ok (_, s') => s'
    | .error _ => s
  else s

/-- The last line of a plain documentation lists tags, behind the word that announces them. -/
structure ListsTags (s : Statement) (before : List (List Token)) (pre : List Token) (t : Token)
    (post : List Token) : Prop where
  plain : s.isPlainDoc = true
  lines_eq : s.lines = before ++ [pre ++ t :: post]
  pre_not_text : ∀ u ∈ pre, isText u = false
  announces : IsTagWord t

variable {s : Statement} {before : List (List Token)} {pre post : List Token} {t : Token}

theorem ListsTags.tidied_eq (h : s.ListsTags before pre t post) :
    s.tidied = { s with tokens := before.flatten ++ (pre ++ t :: post.map clean) } := by
  have hline : isTagLine (pre ++ t :: post) = true :=
    (isTagLine_iff _).mpr ⟨pre, t, post, rfl, h.pre_not_text, h.announces⟩
  have hpre : pre.map clean = pre := by
    rw [List.map_congr_left fun u hu => clean_eq_self (h.pre_not_text u hu), List.map_id']
  have hlast : (pre ++ t :: post).map clean = pre ++ t :: post.map clean := by
    rw [List.map_append, List.map_cons, hpre, h.announces.clean_eq]
  rw [tidied, if_pos h.plain, inDocumentation, h.lines_eq, List.reverse_append]
  simp only [List.reverse_cons, List.reverse_nil, List.nil_append, List.singleton_append, hline,
    if_true, List.reverse_reverse]
  rw [← hlast]
  rfl

theorem tidied_cases (s : Statement) :
    s.tidied = s ∨ ∃ before pre t post, s.ListsTags before pre t post := by
  by_cases hplain : s.isPlainDoc = true
  · cases hlines : s.lines.reverse with
    | nil =>
      left
      rw [tidied, if_pos hplain, inDocumentation, hlines]
    | cons last before =>
      by_cases hlast : isTagLine last = true
      · right
        obtain ⟨pre, t, post, rfl, hpre, ht⟩ := (isTagLine_iff last).mp hlast
        exact ⟨before.reverse, pre, t, post, hplain,
          by simpa using congrArg List.reverse hlines, hpre, ht⟩
      · left
        rw [tidied, if_pos hplain, inDocumentation, hlines]
        simp only [hlast]
        rfl
  · left
    rw [tidied, if_neg hplain]

theorem tidied_of_kind_ne (h : s.kind ≠ .documentation) : s.tidied = s := by
  rw [tidied, if_neg (by simp [isPlainDoc, h])]

theorem ListsTags.lines_tidied (h : s.ListsTags before pre t post) :
    s.tidied.lines = before ++ [pre ++ t :: post.map clean] := by
  rw [h.tidied_eq]
  exact cutLines_last h.lines_eq (by simp [Function.comp_def])

theorem ListsTags.tokens_eq (h : s.ListsTags before pre t post) :
    s.tokens = before.flatten ++ (pre ++ t :: post) := by
  rw [← s.flatten_lines, h.lines_eq, List.flatten_append, List.flatten_singleton]

theorem isPlainDoc_iff :
    s.isPlainDoc = true ↔ s.kind = .documentation ∧ s.errors = [] ∧
      areDocKinds (s.dataTokens.map (·.kind)) = true := by
  simp only [isPlainDoc, Bool.and_eq_true, decide_eq_true_eq, List.isEmpty_iff, and_assoc]

theorem kind_of_isText (hs : s.isPlainDoc = true) {u : Token} (hu : u ∈ s.tokens)
    (htext : isText u = true) : u.kind = .argument := by
  simp only [isText, Bool.and_eq_true, decide_eq_true_eq] at htext
  have hkinds := (isPlainDoc_iff.mp hs).2.2
  have hmem : u.kind ∈ s.dataTokens.map (·.kind) :=
    List.mem_map_of_mem (List.mem_filter.mpr ⟨hu, htext.1⟩)
  generalize s.dataTokens.map (·.kind) = kinds at hkinds hmem
  unfold areDocKinds at hkinds
  split at hkinds
  · rcases List.mem_cons.mp hmem with hdoc | hmem
    · exact absurd hdoc htext.2
    · simpa using List.all_eq_true.mp hkinds _ hmem
  · cases hkinds

private theorem masked_clean {u : Token} (h : isText u = true → u.kind = .argument) :
    (clean u).masked = u.masked := by
  unfold clean
  split
  · rename_i htext
    simp [Token.masked, withoutCommas, h htext]
  · rfl

@[simp] theorem masked_tidied (s : Statement) :
    s.tidied.tokens.map Token.masked = s.tokens.map Token.masked := by
  rcases s.tidied_cases with heq | ⟨before, pre, t, post, h⟩
  · rw [heq]
  · have hpost : ∀ u ∈ post, (clean u).masked = u.masked := by
      intro u hu
      exact masked_clean (kind_of_isText h.plain (by simp [h.tokens_eq, hu]))
    rw [h.tidied_eq, h.tokens_eq]
    simp only [List.map_append, List.map_cons, List.map_map]
    rw [List.map_congr_left (f := Token.masked ∘ clean) hpost]

@[simp] theorem kind_tidied (s : Statement) : s.tidied.kind = s.kind := by
  rcases s.tidied_cases with heq | ⟨before, pre, t, post, h⟩
  · rw [heq]
  · rw [h.tidied_eq]

@[simp] theorem errors_tidied (s : Statement) : s.tidied.errors = s.errors := by
  rcases s.tidied_cases with heq | ⟨before, pre, t, post, h⟩
  · rw [heq]
  · rw [h.tidied_eq]

theorem read_tidied {α : Type} {f : List Token → α} (hf : ∀ ts, f (ts.map Token.masked) = f ts)
    (s : Statement) : f s.tidied.tokens = f s.tokens := by
  rw [← hf, masked_tidied, hf]

@[simp] theorem dataKinds_tidied (s : Statement) :
    s.tidied.dataTokens.map (·.kind) = s.dataTokens.map (·.kind) :=
  read_tidied (f := fun ts => (ts.filter (·.kind.isData)).map (·.kind))
    (fun ts => by simp [List.filter_map, Function.comp_def]) s

@[simp] theorem isPlainDoc_tidied (s : Statement) : s.tidied.isPlainDoc = s.isPlainDoc := by
  rw [isPlainDoc, kind_tidied, errors_tidied, dataKinds_tidied, isPlainDoc]

theorem ListsTags.of_tidied (h : s.ListsTags before pre t post) :
    s.tidied.ListsTags before pre t (post.map clean) :=
  ⟨s.isPlainDoc_tidied.trans h.plain, h.lines_tidied, h.pre_not_text, h.announces⟩

private theorem tidied_tidied (s : Statement) : s.tidied.tidied = s.tidied := by
  rcases s.tidied_cases with heq | ⟨before, pre, t, post, h⟩
  · rw [heq, heq]
  · have hclean : (post.map clean).map clean = post.map clean := by simp [clean_clean]
    rw [h.of_tidied.tidied_eq, hclean, h.tidied_eq]

end Statement

/-! ## Tidying a document -/

def PlainDocs (ns : List Node) : Prop :=
  ∀ s, .leaf s ∈ ns → s.kind = .documentation → s.isPlainDoc = true

theorem plainDocs_iff {ns : List Node} :
    PlainDocs ns ↔
      ∀ s ∈ ns.filterMap Node.statement?, s.kind = .documentation → s.isPlainDoc = true := by
  constructor
  · intro h s hs
    obtain ⟨n, hn, hns⟩ := List.mem_filterMap.mp hs
    cases n with
    | leaf s₀ =>
      obtain rfl : s₀ = s := Option.some.inj hns
      exact h s₀ hn
    | block => cases hns
  · exact fun h s hs => h s (List.mem_filterMap.mpr ⟨.leaf s, hs, rfl⟩)

instance (ns : List Node) : Decidable (PlainDocs ns) := decidable_of_iff _ plainDocs_iff.symm

namespace Check.Tag

theorem tidied_inStatement {flag : Bool} {s s' : Statement} {here : List Finding}
    (hplain : s.kind = .documentation → s.isPlainDoc = true)
    (h : inStatement flag s = .ok (here, s')) : s'.tidied = s.tidied := by
  unfold inStatement at h
  split at h
  case h_4 hs =>
    split at h
    · have hs' : s.tidied = s' := by rw [Statement.tidied, if_pos (hplain hs), h]
      rw [← hs', Statement.tidied_tidied]
    · simp_all
  all_goals simp_all

/-- What the check of names leaves of a document with plain documentation is the same once it is
tidied. -/
theorem tidied_checkNames {flag flag' : Bool} {here : List Finding} {d d' : Document}
    (hplain : PlainDocs d.visited) (h : checkNames flag d = .ok (here, d', flag')) :
    d'.map Statement.tidied = d.map Statement.tidied :=
  (keeps_checkNames tidied_inStatement hplain h).1

end Check.Tag

end SuiteLint
