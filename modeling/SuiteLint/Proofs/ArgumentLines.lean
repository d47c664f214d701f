import Mathlib.Data.List.TakeWhile
import SuiteLint.Proofs.AssignedOptions
import SuiteLint.Proofs.TextParts

/-!
# The lines of argument files

A line is cut at its first space, before blanks are trimmed. That separates an option from its value exactly
if no space stands before the option and one stands between the two.
-/

namespace SuiteLint

namespace Text

/-! ## Blanks at the ends -/

def Blanks (s : List Char) : Prop := ∀ c ∈ s, isBlank c = true

theorem Blanks.of_append_cons {s t : List Char} {c : Char} (h : Blanks (s ++ c :: t)) :
    Blanks s ∧ Blanks t :=
  ⟨fun d hd => h d (List.mem_append_left _ hd),
    fun d hd => h d (List.mem_append_right _ (List.mem_cons_of_mem c hd))⟩

def Trimmed (s : List Char) : Prop :=
  (∀ c ∈ s.head?, isBlank c = false) ∧ ∀ c ∈ s.getLast?, isBlank c = false

theorem trimmed_of_not_blank {s : List Char} (h : ∀ c ∈ s, isBlank c = false) : Trimmed s :=
  ⟨fun c hc => h c (List.mem_of_head? hc), fun c hc => h c (List.mem_of_getLast? hc)⟩

theorem Trimmed.append {s t : List Char} (hs : Trimmed s) (ht : Trimmed t) (hs' : s ≠ []) (ht' : t ≠ [])
    (mid : List Char) : Trimmed (s ++ mid ++ t) := by
  obtain ⟨c, s, rfl⟩ := List.exists_cons_of_ne_nil hs'
  refine ⟨hs.1, ?_⟩
  rw [List.getLast?_append, List.getLast?_eq_some_getLast ht', Option.some_or,
    ← List.getLast?_eq_some_getLast ht']
  exact ht.2

theorem trimRight_of_trimmed {s : List Char} (h : Trimmed s) : trimRight s = s := by
  rw [trimRight, dropEndWhile]
  cases hrev : s.reverse with
  | nil => simpa using hrev.symm
  | cons c rest =>
    have hlast : c ∈ s.getLast? := by
      rw [← List.head?_reverse, hrev]
      rfl
    rw [List.dropWhile_cons_of_neg (by simp [h.2 c hlast]), ← hrev, List.reverse_reverse]

theorem trim_of_blanks {s : List Char} (h : Blanks s) : trim s = [] := by
  rw [trim, trimLeft, List.dropWhile_eq_nil_iff.mpr h]
  rfl

theorem trim_between {lead s tail : List Char} (hlead : Blanks lead) (hs : Trimmed s) (htail : Blanks tail) :
    trim (lead ++ s ++ tail) = s := by
  cases s with
  | nil =>
    rw [List.append_nil]
    exact trim_of_blanks (List.forall_mem_append.mpr ⟨hlead, htail⟩)
  | cons c s =>
    have hc : isBlank c = false := hs.1 c rfl
    rw [trim, trimLeft, List.append_assoc, List.dropWhile_append_of_pos hlead, List.cons_append,
      List.dropWhile_cons_of_neg (by simp [hc]), ← List.cons_append, trimRight_append htail,
      trimRight_of_trimmed hs]

theorem exists_append_blanks (s : List Char) :
    ∃ body blanks, s = body ++ blanks ∧ Blanks blanks ∧ ∀ c ∈ body.getLast?, isBlank c = false := by
  refine ⟨dropEndWhile isBlank s, (s.reverse.takeWhile isBlank).reverse, ?_, ?_, ?_⟩
  · rw [dropEndWhile, ← List.reverse_append, List.takeWhile_append_dropWhile, List.reverse_reverse]
  · intro c hc
    exact List.mem_takeWhile_imp (List.mem_reverse.mp hc)
  · intro c hc
    rw [dropEndWhile, List.getLast?_reverse] at hc
    have hdropped := List.head?_dropWhile_not isBlank s.reverse
    rw [Option.mem_def.mp hc] at hdropped
    exact hdropped

private theorem cutAt_of_not_mem {sep : Char} {s : List Char} (h : sep ∉ s) : cutAt sep s = (s, none) := by
  induction s with
  | nil => rfl
  | cons c s ih =>
    rw [List.mem_cons, not_or] at h
    rw [cutAt, if_neg (Ne.symm h.1), ih h.2]

/-- A text that starts with something else than a blank holds a trimmed text with the same start, and blanks
behind it. -/
theorem exists_trimmed_append {c : Char} (hc : isBlank c = false) (s : List Char) :
    ∃ body blanks, c :: s = c :: body ++ blanks ∧ Trimmed (c :: body) ∧ Blanks blanks := by
  obtain ⟨body, blanks, heq, hblanks, hlast⟩ := exists_append_blanks (c :: s)
  cases body with
  | nil =>
    have hblank := hblanks c (by rw [← List.nil_append blanks, ← heq]; exact List.mem_cons_self)
    rw [hc] at hblank
    cases hblank
  | cons first body =>
    obtain ⟨rfl, rfl⟩ := List.cons.inj heq
    refine ⟨body, blanks, rfl, ⟨?_, hlast⟩, hblanks⟩
    rintro _ ⟨⟩
    exact hc

end Text

namespace ArgumentFile

open Text

/-! ## Lines and their layout -/

/-- The word of an option. -/
structure IsOption (word : List Char) : Prop where
  ne_nil : word ≠ []
  not_blank : ∀ c ∈ word, isBlank c = false
  no_comment : word.head? ≠ some '#'

/-- A line of an argument file with its layout. -/
inductive Line where
  | blank (blanks : List Char) (h : Blanks blanks)
  | comment (lead text : List Char) (hlead : Blanks lead)
  | option (lead word tail : List Char) (hlead : Blanks lead) (hword : IsOption word) (htail : Blanks tail)
  | valued (lead word gap value tail : List Char) (hlead : Blanks lead) (hword : IsOption word)
      (hgap : Blanks gap) (hgap' : gap ≠ []) (hvalue : Trimmed value) (hvalue' : value ≠ [])
      (htail : Blanks tail)

namespace Line

def text : Line → List Char
  | blank blanks _ => blanks
  | comment lead text _ => lead ++ '#' :: text
  | option lead word tail _ _ _ => lead ++ word ++ tail
  | valued lead word gap value tail .. => lead ++ word ++ gap ++ value ++ tail

/-- The option and the value that stand in a line. -/
def words : Line → List String
  | blank .. | comment .. => []
  | option _ word .. => [String.ofList word]
  | valued _ word _ value .. => [String.ofList word, String.ofList value]

/-- The first space of a line with a value, if there is any, stands between the option and the value. -/
def IsSpaced : Line → Prop
  | valued lead _ gap .. => ' ' ∉ lead ∧ ' ' ∈ gap
  | _ => True

end Line

/-! ## The two pieces of a line -/

def pieceArguments (piece : List Char) : List String :=
  if (trim piece).isEmpty then [] else [String.ofList (trim piece)]

theorem map_filter_trim (pieces : List (List Char)) :
    ((pieces.map trim).filter (!·.isEmpty)).map String.ofList = pieces.flatMap pieceArguments := by
  induction pieces with
  | nil => rfl
  | cons piece pieces ih =>
    rw [List.map_cons, List.flatMap_cons, ← ih, pieceArguments]
    cases h : (trim piece).isEmpty with
    | true => rw [List.filter_cons_of_neg (by simp [h]), if_pos rfl, List.nil_append]
    | false => rw [List.filter_cons_of_pos (by simp [h]), if_neg (by simp), List.map_cons]; rfl

theorem pieceArguments_of_blanks {s : List Char} (h : Blanks s) : pieceArguments s = [] := by
  rw [pieceArguments, trim_of_blanks h]
  rfl

theorem pieceArguments_between {lead s tail : List Char} (hlead : Blanks lead) (hs : Trimmed s)
    (hs' : s ≠ []) (htail : Blanks tail) : pieceArguments (lead ++ s ++ tail) = [String.ofList s] := by
  rw [pieceArguments, trim_between hlead hs htail, if_neg (by simpa using hs')]

section Pieces

variable {line first rest : List Char} (hcomment : (trim line).head? ≠ some '#')

include hcomment

theorem lineArguments_of_no_space (h : ' ' ∉ line) : lineArguments line = pieceArguments line := by
  simp only [lineArguments, if_neg hcomment, cutAt_of_not_mem h, map_filter_trim, Option.toList_none,
    List.flatMap_cons, List.flatMap_nil, List.append_nil]

theorem lineArguments_of_space (hline : line = first ++ ' ' :: rest) (h : ' ' ∉ first) :
    lineArguments line = pieceArguments first ++ pieceArguments rest := by
  have hcut : cutAt ' ' line = (first, some rest) := cutAt_eq_some_iff.mpr ⟨hline, h⟩
  simp only [lineArguments, if_neg hcomment, hcut, map_filter_trim, Option.toList_some,
    List.flatMap_cons, List.flatMap_nil, List.append_nil]

end Pieces

/-! ## What a line gives -/

theorem lineArguments_of_blanks {line : List Char} (h : Blanks line) : lineArguments line = [] := by
  have hcomment : (trim line).head? ≠ some '#' := by
    rw [trim_of_blanks h]
    simp
  by_cases hspace : ' ' ∈ line
  · obtain ⟨first, rest, hline, hfirst⟩ := List.eq_append_cons_of_mem hspace
    obtain ⟨hblank, hrest⟩ := (hline ▸ h : Blanks (first ++ ' ' :: rest)).of_append_cons
    rw [lineArguments_of_space hcomment hline hfirst, pieceArguments_of_blanks hblank,
      pieceArguments_of_blanks hrest, List.append_nil]
  · rw [lineArguments_of_no_space hcomment hspace, pieceArguments_of_blanks h]

private theorem lineArguments_comment {lead : List Char} (hlead : Blanks lead) (text : List Char) :
    lineArguments (lead ++ '#' :: text) = [] := by
  obtain ⟨body, blanks, heq, hbody, hblanks⟩ := exists_trimmed_append (c := '#') (by decide) text
  have htrim : trim (lead ++ '#' :: text) = '#' :: body := by
    rw [heq, ← List.append_assoc, trim_between hlead hbody hblanks]
  rw [lineArguments, if_pos (by rw [htrim]; rfl)]

/-- A line gives what stands between the blanks at its ends as one argument, if a space stands before it or
none in it. -/
theorem lineArguments_whole {lead body tail : List Char} (hlead : Blanks lead) (hbody : Trimmed body)
    (hbody' : body ≠ []) (hcomment : body.head? ≠ some '#') (htail : Blanks tail)
    (h : ' ' ∈ lead ∨ ' ' ∉ body) : lineArguments (lead ++ body ++ tail) = [String.ofList body] := by
  have hcomment : (trim (lead ++ body ++ tail)).head? ≠ some '#' := by
    rwa [trim_between hlead hbody htail]
  by_cases hspace : ' ' ∈ lead
  · obtain ⟨first, rest, rfl, hfirst⟩ := List.eq_append_cons_of_mem hspace
    have hline : first ++ ' ' :: rest ++ body ++ tail = first ++ ' ' :: (rest ++ body ++ tail) := by simp
    obtain ⟨hblank, hrest⟩ := hlead.of_append_cons
    rw [lineArguments_of_space hcomment hline hfirst, pieceArguments_of_blanks hblank,
      pieceArguments_between hrest hbody hbody' htail, List.nil_append]
  · have hbefore : ' ' ∉ lead ++ body := by
      simp [hspace, h.resolve_left hspace]
    by_cases hspace' : ' ' ∈ tail
    · obtain ⟨first, rest, rfl, hfirst⟩ := List.eq_append_cons_of_mem hspace'
      have hline : lead ++ body ++ (first ++ ' ' :: rest) = lead ++ body ++ first ++ ' ' :: rest := by simp
      obtain ⟨hblank, hrest⟩ := htail.of_append_cons
      rw [lineArguments_of_space hcomment hline (by simpa [hfirst] using hbefore),
        pieceArguments_between hlead hbody hbody' hblank, pieceArguments_of_blanks hrest, List.append_nil]
    · rw [lineArguments_of_no_space hcomment (by simpa [hspace'] using hbefore),
        pieceArguments_between hlead hbody hbody' htail]

section Valued

variable {lead word gap value tail : List Char} (hlead : Blanks lead) (hword : IsOption word)
  (hvalue : Trimmed value) (hvalue' : value ≠ []) (htail : Blanks tail)

theorem IsOption.trimmed (h : IsOption word) : Trimmed word := trimmed_of_not_blank h.not_blank

theorem IsOption.no_space (h : IsOption word) : ' ' ∉ word := by
  intro hspace
  exact absurd (h.not_blank ' ' hspace) (by decide)

theorem IsOption.head?_append (h : IsOption word) (rest : List Char) :
    (word ++ rest).head? ≠ some '#' := by
  obtain ⟨c, word, rfl⟩ := List.exists_cons_of_ne_nil h.ne_nil
  exact h.no_comment

include hlead hword hvalue hvalue' htail

theorem lineArguments_spaced (hgap : Blanks gap) (hbefore : ' ' ∉ lead) (hspace : ' ' ∈ gap) :
    lineArguments (lead ++ word ++ gap ++ value ++ tail) = [String.ofList word, String.ofList value] := by
  have hbody : Trimmed (word ++ gap ++ value) := hword.trimmed.append hvalue hword.ne_nil hvalue' gap
  have hcomment : (trim (lead ++ word ++ gap ++ value ++ tail)).head? ≠ some '#' := by
    rw [show lead ++ word ++ gap ++ value ++ tail = lead ++ (word ++ gap ++ value) ++ tail by simp,
      trim_between hlead hbody htail, List.append_assoc]
    exact hword.head?_append _
  obtain ⟨first, rest, rfl, hfirst⟩ := List.eq_append_cons_of_mem hspace
  have hline : lead ++ word ++ (first ++ ' ' :: rest) ++ value ++ tail =
      lead ++ word ++ first ++ ' ' :: (rest ++ value ++ tail) := by simp
  obtain ⟨hblank, hrest⟩ := hgap.of_append_cons
  rw [lineArguments_of_space hcomment hline (by simp [hbefore, hword.no_space, hfirst]),
    pieceArguments_between hlead hword.trimmed hword.ne_nil hblank,
    pieceArguments_between hrest hvalue hvalue' htail]
  rfl

/-- Otherwise the option and the blanks behind it run on into the value. -/
theorem lineArguments_not_spaced (h : ¬ (' ' ∉ lead ∧ ' ' ∈ gap)) :
    ∃ more rest, more ≠ [] ∧
      lineArguments (lead ++ word ++ gap ++ value ++ tail) = String.ofList (word ++ gap ++ more) :: rest := by
  have hbody : Trimmed (word ++ gap ++ value) := hword.trimmed.append hvalue hword.ne_nil hvalue' gap
  have hcomment : (word ++ gap ++ value).head? ≠ some '#' := by
    rw [List.append_assoc]
    exact hword.head?_append _
  have htext : lead ++ word ++ gap ++ value ++ tail = lead ++ (word ++ gap ++ value) ++ tail := by simp
  rw [htext]
  by_cases hwhole : ' ' ∈ lead ∨ ' ' ∉ word ++ gap ++ value
  · refine ⟨value, [], hvalue', ?_⟩
    exact lineArguments_whole hlead hbody (by simp [hword.ne_nil]) hcomment htail hwhole
  · -- the first space stands in the value, which is cut there
    rw [not_or, not_not] at hwhole
    have hgapless : ' ' ∉ gap := fun hspace => h ⟨hwhole.1, hspace⟩
    have hspace : ' ' ∈ value := by simpa [hword.no_space, hgapless] using hwhole.2
    obtain ⟨first, rest, hcut, hfirst⟩ := List.eq_append_cons_of_mem hspace
    cases first with
    | nil =>
      have hblank := hvalue.1 ' ' (by rw [hcut]; rfl)
      exact absurd hblank (by decide)
    | cons c first =>
      have hc : isBlank c = false := hvalue.1 c (by rw [hcut]; rfl)
      obtain ⟨body, blanks, heq, hsolid, hblanks⟩ := exists_trimmed_append hc first
      refine ⟨c :: body, pieceArguments (rest ++ tail), by simp, ?_⟩
      have hhead : (trim (lead ++ (word ++ gap ++ value) ++ tail)).head? ≠ some '#' := by
        rwa [trim_between hlead hbody htail]
      have hline : lead ++ (word ++ gap ++ value) ++ tail =
          lead ++ (word ++ gap ++ (c :: body)) ++ blanks ++ ' ' :: (rest ++ tail) := by
        rw [hcut, heq]
        simp
      rw [lineArguments_of_space hhead hline,
        pieceArguments_between hlead (hword.trimmed.append hsolid hword.ne_nil (by simp) gap)
          (by simp) hblanks]
      · rfl
      · rw [heq] at hfirst
        simpa [hwhole.1, hword.no_space, hgapless] using hfirst

end Valued

theorem lineArguments_of_isSpaced (line : Line) (h : line.IsSpaced) :
    lineArguments line.text = line.words := by
  cases line with
  | blank blanks hblanks => exact lineArguments_of_blanks hblanks
  | comment lead text hlead => exact lineArguments_comment hlead text
  | option lead word tail hlead hword htail =>
    exact lineArguments_whole hlead hword.trimmed hword.ne_nil hword.no_comment htail (Or.inr hword.no_space)
  | valued lead word gap value tail hlead hword hgap _ hvalue hvalue' htail =>
    exact lineArguments_spaced hlead hword hvalue hvalue' htail hgap h.1 h.2

theorem lineArguments_of_not_isSpaced (line : Line) (h : ¬ line.IsSpaced) :
    ∃ first rest word words, lineArguments line.text = first :: rest ∧ line.words = word :: words ∧
      first ≠ word := by
  cases line with
  | valued lead word gap value tail hlead hword hgap _ hvalue hvalue' htail =>
    obtain ⟨more, rest, hmore, heq⟩ := lineArguments_not_spaced hlead hword hvalue hvalue' htail h
    refine ⟨_, rest, _, _, heq, rfl, fun hsame => ?_⟩
    have hlength := congrArg List.length (String.ofList_injective hsame)
    rw [List.length_append, List.length_append] at hlength
    have hpos : 0 < more.length := List.length_pos_iff.mpr hmore
    omega
  | _ => exact absurd trivial h

/-! ## Files and requests for them -/

/-- The lines of a file give the words that stand in them exactly if all of them are cut as they should
be: the first line that is not gives a wrong argument after all those before have given the right ones. -/
theorem flatMap_lineArguments_eq_iff (ls : List Line) :
    (ls.map Line.text).flatMap lineArguments = ls.flatMap Line.words ↔ ∀ line ∈ ls, line.IsSpaced := by
  induction ls with
  | nil => simp
  | cons line ls ih =>
    rw [List.map_cons, List.flatMap_cons, List.flatMap_cons, List.forall_mem_cons, ← ih]
    by_cases h : line.IsSpaced
    · rw [lineArguments_of_isSpaced line h, List.append_cancel_left_eq, and_iff_right h]
    · obtain ⟨first, rest, word, words, hgiven, hmeant, hne⟩ := lineArguments_of_not_isSpaced line h
      rw [hgiven, hmeant]
      refine iff_of_false ?_ fun hboth => h hboth.1
      intro hsame
      exact hne (List.cons.inj hsame).1

/-- The answer that is due for a file: the options and values of its lines in order, unless they ask for
another argument file. -/
def dueArguments (name : String) (ls : List Line) : Except LintError (List String) :=
  if (ls.flatMap Line.words).any isRequest then .error (.nestedArgumentFile name)
  else .ok (ls.flatMap Line.words)

theorem arguments_eq_due_iff (name : String) (ls : List Line) :
    arguments name (ls.map Line.text) = dueArguments name ls ↔
      (∀ line ∈ ls, line.IsSpaced) ∨
        ((ls.flatMap Line.words).any isRequest = true ∧
          ((ls.map Line.text).flatMap lineArguments).any isRequest = true) := by
  rw [← flatMap_lineArguments_eq_iff, arguments, dueArguments]
  generalize (ls.map Line.text).flatMap lineArguments = given
  generalize ls.flatMap Line.words = meant
  have hne (h : given.any isRequest ≠ meant.any isRequest) : given ≠ meant := by
    rintro rfl
    exact h rfl
  cases hgiven : given.any isRequest with
  | true =>
    cases hmeant : meant.any isRequest with
    | true => simp
    | false => simp [hne (by simp [hgiven, hmeant])]
  | false =>
    cases hmeant : meant.any isRequest with
    | true => simp [hne (by simp [hgiven, hmeant])]
    | false => simp

/-- An argument of a command line: a word, or a request for an argument file with the name of the file. -/
inductive Argument where
  | word (word : String) (h : isRequest word = false)
  | file (request name : String) (h : isRequest request = true)

namespace Argument

def words : Argument → List String
  | word w _ => [w]
  | file request name _ => [request, name]

/-- What comes in the place of an argument. -/
def given (project : Project) : Argument → Except LintError (List String)
  | word w _ => .ok [w]
  | file _ name _ => load project name

end Argument

theorem splice_word (project : Project) {word : String} (h : isRequest word = false) (words : List String) :
    splice project (word :: words) =
      (splice project words).map fun (rest, origin) => (word :: rest, origin) := by
  cases words with
  | nil => simp only [splice, h, Bool.false_eq_true, if_false]; rfl
  | cons name words =>
    simp only [splice, h, Bool.false_eq_true, if_false]
    rfl

theorem splice_request (project : Project) {request : String} (h : isRequest request = true) (name : String)
    (words : List String) :
    (splice project (request :: name :: words)).map (·.1) =
      (load project name).bind fun found => ((splice project words).map (·.1)).map (found ++ ·) := by
  simp only [splice, h, if_true]
  cases load project name with
  | error e => rfl
  | ok found =>
    cases splice project words with
    | error e => rfl
    | ok rest => rfl

theorem mapM_given_cons (project : Project) (a : Argument) (as : List Argument) :
    ((a :: as).mapM (Argument.given project)).map List.flatten =
      (a.given project).bind fun found =>
        ((as.mapM (Argument.given project)).map List.flatten).map (found ++ ·) := by
  rw [List.mapM_cons]
  cases a.given project with
  | error e => rfl
  | ok found =>
    cases as.mapM (Argument.given project) with
    | error e => rfl
    | ok rest => rfl

/-- The arguments of files come in the place of the requests for them; of several errors the first counts. -/
theorem splice_words (project : Project) (as : List Argument) :
    (splice project (as.flatMap Argument.words)).map (·.1) =
      (as.mapM (Argument.given project)).map List.flatten := by
  induction as with
  | nil => rfl
  | cons a as ih =>
    rw [mapM_given_cons, ← ih, List.flatMap_cons]
    cases a with
    | word w h =>
      rw [Argument.words, List.singleton_append, splice_word project h]
      cases splice project (as.flatMap Argument.words) <;> rfl
    | file request name h =>
      rw [Argument.words, List.cons_append, List.singleton_append, splice_request project h]
      rfl

theorem load_file {project : Project} {name : String} (hname : name ≠ "") {f : SuiteFile}
    (hfile : project.find? (Path.ofString name) = some (.file f)) {lines : List (List Char)}
    (hlines : fileLines f.bytes = some lines) : load project name = arguments name lines := by
  rw [load, if_neg (by simpa using hname), hfile]
  simp only [hlines]

/-- An argument file whose lines are blank, comments, or options with or without a value gives its options and
values in order, or is refused because they ask for another file, exactly if each option with a value stands
without a space before it and with one behind it, or if the file is refused either way. What a file gives
comes in the place of `--argumentfile`, wherever this stands in a command line. -/
theorem argument_files_read_iff (project : Project) :
    (∀ (name : String) (f : SuiteFile) (ls : List Line), name ≠ "" →
      project.find? (Path.ofString name) = some (.file f) →
      fileLines f.bytes = some (ls.map Line.text) →
        (load project name = dueArguments name ls ↔
          (∀ line ∈ ls, line.IsSpaced) ∨
            ((ls.flatMap Line.words).any isRequest = true ∧
              ((ls.map Line.text).flatMap lineArguments).any isRequest = true))) ∧
      ∀ as : List Argument, (splice project (as.flatMap Argument.words)).map (·.1) =
        (as.mapM (Argument.given project)).map List.flatten := by
  refine ⟨fun name f ls hname hfile hlines => ?_, splice_words project⟩
  rw [load_file hname hfile hlines, arguments_eq_due_iff]

theorem blanks_of_all {s : List Char} (h : s.all isBlank = true) : Blanks s := List.all_eq_true.mp h

theorem not_blank_of_all {s : List Char} (h : (s.all fun c => !isBlank c) = true) :
    ∀ c ∈ s, isBlank c = false := by
  intro c hc
  simpa using List.all_eq_true.mp h c hc

def includeLine (lead gap : List Char) (hlead : Blanks lead) (hgap : Blanks gap) (hgap' : gap ≠ []) : Line :=
  .valued lead "--include".toList gap "0203".toList " \n".toList hlead
    ⟨by decide, not_blank_of_all (by decide), by decide⟩ hgap hgap'
    (trimmed_of_not_blank (not_blank_of_all (by decide))) (by decide) (blanks_of_all (by decide))

/-- Comments, empty lines and blanks behind an option make no difference. -/
theorem argument_files_read_iff_spaced :
    load (.withFile "args.txt" "# rules\n\n--include  0203 \n") "args.txt" = .ok ["--include", "0203"] ∧
      (splice (.withFile "args.txt" "# rules\n\n--include  0203 \n")
        ["a.robot", "-A", "args.txt", "b.robot"]).map (·.1) =
        .ok ["a.robot", "--include", "0203", "b.robot"] := by
  have hread := argument_files_read_iff (.withFile "args.txt" "# rules\n\n--include  0203 \n")
  have hlines : fileLines "# rules\n\n--include  0203 \n".toUTF8.toList =
      some ([.comment [] " rules\n".toList (blanks_of_all rfl), .blank "\n".toList (blanks_of_all (by decide)),
        includeLine [] "  ".toList (blanks_of_all rfl) (blanks_of_all (by decide)) (by decide)].map
          Line.text) := by decide +kernel
  have hload : load (.withFile "args.txt" "# rules\n\n--include  0203 \n") "args.txt" =
      .ok ["--include", "0203"] := by
    refine (hread.1 "args.txt" _ _ (by decide) rfl hlines).mpr (Or.inl ?_)
    simp only [List.forall_mem_cons]
    exact ⟨trivial, trivial, ⟨by decide, by decide⟩, by simp⟩
  refine ⟨hload, ?_⟩
  have hsplice := hread.2 [.word "a.robot" (by decide), .file "-A" "args.txt" (by decide),
    .word "b.robot" (by decide)]
  rw [List.mapM_cons, List.mapM_cons] at hsplice
  simp only [Argument.given, hload] at hsplice
  exact hsplice

/-- Blanks before an option make one argument of the option and its value. -/
theorem indented_option_not_cut :
    ∃ line : Line, fileLines "  --include 0203 \n".toUTF8.toList = some [line.text] ∧
      dueArguments "args.txt" [line] = .ok ["--include", "0203"] ∧
      load (.withFile "args.txt" "  --include 0203 \n") "args.txt" = .ok ["--include 0203"] := by
  have hlines : fileLines "  --include 0203 \n".toUTF8.toList = some ["  --include 0203 \n".toList] := by
    decide +kernel
  refine ⟨includeLine "  ".toList " ".toList (blanks_of_all (by decide)) (blanks_of_all (by decide))
    (by decide), hlines, rfl, ?_⟩
  rw [load_file (by decide) rfl hlines]
  rfl

end ArgumentFile

end SuiteLint
