import SuiteLint.Text.Find
import SuiteLint.Text.Line

/-!
# The lines of a text on disk

A text that is written in UTF-8 and read again has the lines that it has in memory, with a line feed for
each of its line ends, if it has no others than these two and starts with no byte order mark.
-/

namespace SuiteLint.Text

def encode (s : List Char) : List UInt8 := s.flatMap String.utf8EncodeChar

def StartsPlainly : List Char → Prop
  | [] => True
  | c :: rest => isLineEnd c = true → c = '\n' ∨ c = '\r' ∧ rest.head? = some '\n'

def HasPlainEnds (s : List Char) : Prop := ∀ tail ∈ tails s, StartsPlainly tail

instance : ∀ s : List Char, Decidable (StartsPlainly s)
  | [] => isTrue trivial
  | c :: rest =>
    inferInstanceAs (Decidable (isLineEnd c = true → c = '\n' ∨ c = '\r' ∧ rest.head? = some '\n'))

instance (s : List Char) : Decidable (HasPlainEnds s) :=
  inferInstanceAs (Decidable (∀ tail ∈ tails s, StartsPlainly tail))

@[simp] theorem hasPlainEnds_cons {c : Char} {rest : List Char} :
    HasPlainEnds (c :: rest) ↔ StartsPlainly (c :: rest) ∧ HasPlainEnds rest := by
  simp [HasPlainEnds, tails]

/-! ## Bytes -/

@[simp] theorem encode_nil : encode [] = [] := rfl

@[simp] theorem encode_cons (c : Char) (s : List Char) :
    encode (c :: s) = String.utf8EncodeChar c ++ encode s := rfl

theorem decode_encode (s : List Char) : decode (encode s) = some s := by
  have hbytes : ByteArray.mk (encode s).toArray = s.utf8Encode := by
    rw [← List.data_toByteArray]
    rfl
  have hvalid : (ByteArray.mk (encode s).toArray).IsValidUTF8 := ⟨s, hbytes⟩
  have hstring : String.fromUTF8 _ hvalid = String.ofList s := by
    rw [← String.toByteArray_inj]
    exact hbytes
  rw [decode, String.fromUTF8?, dif_pos hvalid, Option.map_some, hstring, String.toList_ofList]

/-- A byte of a character is the character itself, or none of the first 128 bytes nor of the last
eight, which UTF-8 does not use. -/
theorem byte_range {c : Char} {b : UInt8} (hb : b ∈ String.utf8EncodeChar c) :
    b.toNat = c.val.toNat ∧ c.val.toNat < 128 ∨ 128 ≤ b.toNat ∧ b.toNat < 248 := by
  simp only [String.utf8EncodeChar] at hb
  split at hb
  · obtain rfl := List.mem_singleton.mp hb
    left
    rw [UInt8.toNat_ofNat']
    omega
  · right
    split at hb
    · simp only [List.mem_cons, List.not_mem_nil, or_false] at hb
      rcases hb with rfl | rfl <;> rw [UInt8.toNat_ofNat'] <;> omega
    · split at hb
      · simp only [List.mem_cons, List.not_mem_nil, or_false] at hb
        rcases hb with rfl | rfl | rfl <;> rw [UInt8.toNat_ofNat'] <;> omega
      · simp only [List.mem_cons, List.not_mem_nil, or_false] at hb
        rcases hb with rfl | rfl | rfl | rfl <;> rw [UInt8.toNat_ofNat'] <;> omega

private theorem feed_not_mem_bytes {c : Char} (h : c ≠ '\n') : (10 : UInt8) ∉ String.utf8EncodeChar c := by
  intro hb
  have hten : (10 : UInt8).toNat = 10 := rfl
  rcases byte_range hb with ⟨heq, -⟩ | ⟨hle, -⟩
  · exact h (Char.ext (UInt32.toNat_inj.mp (heq.symm.trans hten)))
  · omega

theorem lt_of_mem_encode {s : List Char} {b : UInt8} (hb : b ∈ encode s) : b.toNat < 248 := by
  obtain ⟨c, -, hb⟩ := List.mem_flatMap.mp hb
  rcases byte_range hb with ⟨heq, hlt⟩ | ⟨-, hlt⟩ <;> omega

theorem head?_eq_of_encode_marked {s : List Char} (h : [0xef, 0xbb, 0xbf] <+: encode s) :
    s.head? = some '\ufeff' := by
  cases s with
  | nil => simp at h
  | cons c rest =>
    have hc : c.val.toNat = 0xfeff := by
      rw [encode_cons] at h
      simp only [String.utf8EncodeChar] at h
      -- Of the characters with one to four bytes, only those with three start as the mark does.
      repeat' split at h
      all_goals
        simp only [List.cons_append, List.cons_prefix_cons, ← UInt8.toNat_inj,
          UInt8.toNat_ofNat', UInt8.reduceToNat] at h
        omega
    exact congrArg some (Char.ext (UInt32.toNat_inj.mp hc))

/-! ## Lines -/

private def inFront {α : Type} (part : List α) : List (List α) → List (List α)
  | [] => [part]
  | line :: more => (part ++ line) :: more

private theorem byteLines_append {part : List UInt8} (hne : part ≠ []) (h : 10 ∉ part)
    (bytes : List UInt8) : byteLines (part ++ bytes) = inFront part (byteLines bytes) := by
  induction part with
  | nil => exact absurd rfl hne
  | cons b part ih =>
    have hb : b ≠ 10 := fun hb => h (hb ▸ List.mem_cons_self)
    have hpart : 10 ∉ part := fun hpart => h (List.mem_cons_of_mem b hpart)
    rw [List.cons_append, byteLines, if_neg hb]
    cases part with
    | nil =>
      rw [List.nil_append]
      cases byteLines bytes <;> rfl
    | cons b' part =>
      rw [ih (List.cons_ne_nil _ _) hpart]
      cases byteLines bytes <;> rfl

theorem eq_feed_of_startsPlainly {c : Char} {rest : List Char} (hend : isLineEnd c = true)
    (hpair : ∀ more, c = '\r' → rest = '\n' :: more → False)
    (h : StartsPlainly (c :: rest)) : c = '\n' := by
  rcases h hend with hc | ⟨hc, hrest⟩
  · exact hc
  · obtain ⟨more, rfl⟩ := List.head?_eq_some_iff.mp hrest
    exact (hpair more hc rfl).elim

theorem byteLines_encode {s : List Char} (h : HasPlainEnds s) :
    byteLines (encode s) = (lines s).map encode := by
  fun_induction lines s with
  | case1 => rfl
  | case2 rest ih =>
    have hrest : HasPlainEnds rest := (hasPlainEnds_cons.mp (hasPlainEnds_cons.mp h).2).2
    rw [List.map_cons, ← ih hrest]
    rfl
  | case3 c rest hpair hend ih =>
    obtain ⟨hplain, hrest⟩ := hasPlainEnds_cons.mp h
    obtain rfl := eq_feed_of_startsPlainly hend hpair hplain
    rw [List.map_cons, ← ih hrest]
    rfl
  | case4 c rest hpair hend hnil ih =>
    have hc : c ≠ '\n' := fun hc => hend (hc ▸ rfl)
    rw [encode_cons, byteLines_append String.utf8EncodeChar_ne_nil (feed_not_mem_bytes hc),
      ih (hasPlainEnds_cons.mp h).2, hnil]
    simp [inFront, encode]
  | case5 c rest hpair hend line more hcons ih =>
    have hc : c ≠ '\n' := fun hc => hend (hc ▸ rfl)
    rw [encode_cons, byteLines_append String.utf8EncodeChar_ne_nil (feed_not_mem_bytes hc),
      ih (hasPlainEnds_cons.mp h).2, hcons]
    rfl

private theorem mapM_decode (ls : List (List Char)) : (ls.map encode).mapM decode = some ls := by
  induction ls with
  | nil => rfl
  | cons line ls ih => simp [decode_encode, ih]

private theorem head?_lines (s : List Char) : (lines s).head?.bind List.head? = s.head? := by
  fun_cases lines s <;> rfl

private theorem dropByteOrderMark_eq_self {s : List Char} (h : s.head? ≠ some '\ufeff') :
    dropByteOrderMark s = s := by
  cases s with
  | nil => rfl
  | cons c rest =>
    have hc : c.toNat ≠ 0xfeff := fun hc => h (congrArg some (Char.ext (UInt32.toNat_inj.mp hc)))
    rw [dropByteOrderMark, if_neg hc]

theorem fileLines_encode {s : List Char} (h : HasPlainEnds s) (hmark : s.head? ≠ some '\ufeff') :
    fileLines (encode s) = some ((lines s).map plainLineFeeds) := by
  rw [fileLines, byteLines_encode h, mapM_decode]
  cases hlines : lines s with
  | nil => rfl
  | cons line more =>
    have hline : line.head? ≠ some '\ufeff' := by
      rwa [← head?_lines, hlines] at hmark
    simp [dropByteOrderMark_eq_self hline]

/-! ## Ends of lines -/

def IsEnding (s : List Char) : Prop := s = [] ∨ s = ['\n'] ∨ s = ['\r', '\n']

/-- A line is a body without line ends, and an ending. -/
theorem exists_body_of_mem_lines {s line : List Char} (h : HasPlainEnds s) (hline : line ∈ lines s) :
    ∃ body ending, line = body ++ ending ∧ (∀ c ∈ body, isLineEnd c = false) ∧ IsEnding ending := by
  fun_induction lines s generalizing line with
  | case1 => cases hline
  | case2 rest ih =>
    rcases List.mem_cons.mp hline with rfl | hrest
    · exact ⟨[], ['\r', '\n'], rfl, by simp, .inr (.inr rfl)⟩
    · exact ih (hasPlainEnds_cons.mp (hasPlainEnds_cons.mp h).2).2 hrest
  | case3 c rest hpair hend ih =>
    obtain ⟨hplain, hplains⟩ := hasPlainEnds_cons.mp h
    obtain rfl := eq_feed_of_startsPlainly hend hpair hplain
    rcases List.mem_cons.mp hline with rfl | hrest
    · exact ⟨[], ['\n'], rfl, by simp, .inr (.inl rfl)⟩
    · exact ih hplains hrest
  | case4 c rest hpair hend hnil ih =>
    obtain rfl := List.mem_singleton.mp hline
    exact ⟨[c], [], rfl, by simpa using hend, .inl rfl⟩
  | case5 c rest hpair hend first more hcons ih =>
    have hplains := (hasPlainEnds_cons.mp h).2
    rcases List.mem_cons.mp hline with rfl | hmore
    · obtain ⟨body, ending, rfl, hbody, hending⟩ := ih hplains (hcons ▸ List.mem_cons_self)
      refine ⟨c :: body, ending, rfl, ?_, hending⟩
      intro d hd
      rcases List.mem_cons.mp hd with rfl | hd
      · simpa using hend
      · exact hbody d hd
    · exact ih hplains (hcons ▸ List.mem_cons_of_mem first hmore)

theorem chomp_append {body ending : List Char} (hbody : ∀ c ∈ body, isLineEnd c = false)
    (hending : IsEnding ending) : chomp (body ++ ending) = body := by
  induction body with
  | nil => rcases hending with rfl | rfl | rfl <;> rfl
  | cons c body ih =>
    have hc : isLineEnd c = false := hbody c List.mem_cons_self
    have ih := ih fun d hd => hbody d (List.mem_cons_of_mem c hd)
    rw [List.cons_append]
    cases hrest : body ++ ending with
    | nil =>
      rw [chomp, if_neg (Bool.eq_false_iff.mp hc), (List.append_eq_nil_iff.mp hrest).1]
    | cons d rest =>
      rw [chomp, ← hrest, ih]
      · rintro rfl -
        exact absurd hc (by decide)
      · simp

theorem plainLineFeeds_append {body : List Char} (hbody : ∀ c ∈ body, isLineEnd c = false)
    (ending : List Char) : plainLineFeeds (body ++ ending) = body ++ plainLineFeeds ending := by
  induction body with
  | nil => rfl
  | cons c body ih =>
    have hc : c ≠ '\r' := fun hc => absurd (hbody c List.mem_cons_self) (hc ▸ by decide)
    rw [List.cons_append, plainLineFeeds, ih fun d hd => hbody d (List.mem_cons_of_mem c hd)]
    · rfl
    · exact fun _ hr _ => hc hr

end SuiteLint.Text
