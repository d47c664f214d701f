import SuiteLint.Proofs.TidyDocumentation

/-!
# What tidying keeps

Tidying a documentation keeps its places, its first data token, the tokens that are no arguments, and
whether it is empty. So it keeps the places, names and marks of nodes, sections and documents.
-/

namespace SuiteLint

open Statement (tidied)

/-! ## Statements -/

namespace Statement

variable (s : Statement)

theorem apply_tidied {β : Type} (f : Statement → β)
    (h : s.kind = .documentation → f s.tidied = f s) : f s.tidied = f s := by
  by_cases hs : s.kind = .documentation
  · exact h hs
  · rw [tidied_of_kind_ne hs]

@[simp] theorem line_tidied : s.tidied.line = s.line := by
  refine read_tidied (f := fun ts => line { s with tokens := ts }) ?_ s
  intro ts
  cases ts <;> simp [line]

@[simp] theorem column_tidied : s.tidied.column = s.column := by
  refine read_tidied (f := fun ts => column { s with tokens := ts }) ?_ s
  intro ts
  cases ts <;> simp [column]

@[simp] theorem endLine_tidied : s.tidied.endLine = s.endLine := by
  refine read_tidied (f := fun ts => endLine { s with tokens := ts }) ?_ s
  intro ts
  cases hlast : ts.getLast? <;> simp [endLine, hlast]

theorem filter_masked {p : TokenKind → Bool} (hp : p .argument = false) (ts : List Token) :
    (ts.map Token.masked).filter (p ·.kind) = ts.filter (p ·.kind) := by
  induction ts with
  | nil => rfl
  | cons t ts ih =>
    by_cases ht : p t.kind = true
    · have hne : t.kind ≠ .argument := fun he => by simp [he, hp] at ht
      simp [ht, ih, Token.masked_eq_self hne]
    · simp [ht, ih]

theorem tokensOf_tidied (kind : TokenKind) (h : kind ≠ .argument) :
    s.tidied.tokensOf kind = s.tokensOf kind := by
  refine read_tidied (f := fun ts => ts.filter fun t => t.kind = kind) ?_ s
  exact filter_masked (p := (· = kind)) (by simpa using h.symm)

theorem token?_tidied (kinds : List TokenKind) (h : kinds.contains .argument = false) :
    s.tidied.token? kinds = s.token? kinds := by
  refine read_tidied (f := fun ts => ts.find? fun t => kinds.contains t.kind) ?_ s
  intro ts
  rw [← List.head?_filter, filter_masked (p := kinds.contains) h, List.head?_filter]

@[simp] theorem name?_tidied : s.tidied.name? = s.name? := by
  refine s.apply_tidied name? fun hs => ?_
  simp only [name?, kind_tidied, hs, value?, s.token?_tidied [.name] rfl]

@[simp] theorem mark?_tidied : s.tidied.mark? = s.mark? := by
  refine s.apply_tidied mark? fun hs => ?_
  simp only [mark?, kind_tidied, hs]

/-- The first data token is the name of the setting, or comes before the tags in any case. -/
@[simp] theorem head?_dataTokens_tidied : s.tidied.dataTokens.head? = s.dataTokens.head? := by
  rcases s.tidied_cases with heq | ⟨before, pre, t, post, h⟩
  · rw [heq]
  · have ht : t.kind.isData = true := by
      have htext := h.announces.1
      simp only [Check.Tag.isText, Bool.and_eq_true] at htext
      exact htext.1
    rw [dataTokens, dataTokens, h.tidied_eq, h.tokens_eq]
    simp only [List.head?_filter, List.find?_append, List.find?_cons, ht]

@[simp] theorem isEmpty_dataTokens_tidied : s.tidied.dataTokens.isEmpty = s.dataTokens.isEmpty := by
  rw [← List.isEmpty_map (f := (·.kind)), dataKinds_tidied, List.isEmpty_map]

@[simp] theorem firstData_tidied : firstData s.tidied = firstData s := by
  have hhead := s.head?_dataTokens_tidied
  unfold firstData
  cases hs : s.dataTokens <;> cases hs' : s.tidied.dataTokens <;> simp_all

theorem isMild_tidied : IsMild tidied where
  elsewhere := tidied_of_kind_ne
  kind := kind_tidied
  line := line_tidied
  endLine := endLine_tidied
  commentsOut s := by rw [name?_tidied]

theorem joinLines_eq_empty {texts : List String} (h : joinLines texts = "") :
    ∀ text ∈ texts, text = "" := by
  induction texts with
  | nil => simp
  | cons first more ih =>
    cases more with
    | nil => simpa [joinLines] using h
    | cons second more =>
      rw [joinLines] at h
      · simp only [String.append_eq_empty_iff] at h
        rw [List.forall_mem_cons]
        exact ⟨h.1.1, ih h.2⟩
      · simp

theorem joinByLine_eq_empty {ts : List Token} (h : ∀ entry ∈ joinByLine ts, entry.2 = "") :
    ∀ t ∈ ts, t.value = "" := by
  induction ts with
  | nil => simp
  | cons t ts ih =>
    rw [joinByLine] at h
    rw [List.forall_mem_cons]
    cases hts : joinByLine ts with
    | nil =>
      rw [hts, List.forall_mem_singleton] at h
      exact ⟨h, ih (by simp [hts])⟩
    | cons entry more =>
      rw [hts] at h
      dsimp only at h
      split at h
      · -- Values on one line are joined with a blank.
        have hfirst := (List.forall_mem_cons.mp h).1
        simp [String.append_eq_empty_iff] at hfirst
      · obtain ⟨hfirst, hmore⟩ := List.forall_mem_cons.mp h
        exact ⟨hfirst, ih (hts ▸ hmore)⟩

section

variable {s : Statement} {before : List (List Token)} {pre post : List Token} {t : Token}

theorem ListsTags.kind_eq (h : s.ListsTags before pre t post) : t.kind = .argument :=
  kind_of_isText h.plain (by simp [h.tokens_eq]) h.announces.1

theorem ListsTags.longText?_ne (h : s.ListsTags before pre t post) : s.longText? ≠ some "" := by
  intro hempty
  have ht : t ∈ s.tokensOf .argument := by simp [tokensOf, h.tokens_eq, h.kind_eq]
  rw [longText?] at hempty
  split at hempty
  · cases hempty
  · have hlines := joinLines_eq_empty (Option.some.inj hempty)
    have hvalue : t.value = "" :=
      joinByLine_eq_empty (fun entry hentry => hlines _ (List.mem_map_of_mem hentry)) t ht
    have hword := h.announces.2
    rw [hvalue] at hword
    cases hword

theorem ListsTags.isNone_longText? (h : s.ListsTags before pre t post) :
    s.tidied.longText?.isNone = s.longText?.isNone := by
  have hhead : (s.tidied.tokensOf .argument).head? = (s.tokensOf .argument).head? := by
    rw [tokensOf, tokensOf, h.tidied_eq, h.tokens_eq]
    simp [List.head?_filter, h.kind_eq]
  have hnone (s : Statement) :
      s.longText?.isNone = (s.tokensOf .argument).head?.any (·.line = -1) := by
    rw [longText?]
    split <;> simp_all
  rw [hnone, hhead, ← hnone]

end

end Statement

/-! ## Nodes, sections and documents -/

namespace Node

variable (n : Node)

theorem apply_tidied {β : Type} (f : Node → β)
    (hleaf : ∀ s : Statement, s.kind = .documentation → f (.leaf s.tidied) = f (.leaf s))
    (hblock : ∀ kind header body orelse close errors,
      f (map tidied (.block kind header body orelse close errors)) =
        f (.block kind header body orelse close errors)) :
    f (n.map tidied) = f n := by
  cases n with
  | leaf s =>
    rw [map_leaf]
    exact s.apply_tidied (fun s => f (.leaf s)) (hleaf s)
  | block kind header body orelse close errors => exact hblock kind header body orelse close errors

@[simp] theorem isStatement_tidied (kind : StatementKind) :
    (n.map tidied).isStatement kind = n.isStatement kind := Statement.isMild_tidied.isStatement_map n kind

@[simp] theorem line_tidied : (n.map tidied).line = n.line := Statement.isMild_tidied.line_node n

@[simp] theorem column_tidied : (n.map tidied).column = n.column := by
  rw [column, statements_map, column]
  cases n.statements <;> simp

@[simp] theorem endLine_tidied : (n.map tidied).endLine = n.endLine := Statement.isMild_tidied.endLine_node n

@[simp] theorem mark?_tidied : (n.map tidied).mark? = n.mark? := by
  rcases n with s | ⟨_ | _ | _ | _ | _, _, _, _, _, _⟩ <;> simp [mark?]

@[simp] theorem name?_tidied : (n.map tidied).name? = n.name? := by
  rw [name?, header?_map, name?]
  cases n.header? <;> simp

end Node

namespace Section

variable (s : Section)

@[simp] theorem line_tidied : (s.map tidied).line = s.line := by
  rw [line, statements_map, line]
  cases s.statements <;> simp

@[simp] theorem endLine_tidied : (s.map tidied).endLine = s.endLine := by
  rw [endLine, statements_map, List.getLast?_map, endLine]
  cases s.statements.getLast? <;> simp

end Section

namespace Document

variable (d : Document)

@[simp] theorem line_tidied : (d.map tidied).line = d.line := Statement.isMild_tidied.line_document d

@[simp] theorem endLine_tidied : (d.map tidied).endLine = d.endLine := Statement.isMild_tidied.endLine_document d

theorem statementsOf_tidied (kind : StatementKind) (h : kind ≠ .documentation) :
    (d.map tidied).statementsOf kind = d.statementsOf kind := Statement.isMild_tidied.statementsOf_map h d

end Document

end SuiteLint
