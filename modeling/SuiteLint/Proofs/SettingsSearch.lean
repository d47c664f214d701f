import Mathlib.Data.List.Induction
import SuiteLint.Proofs.FileGathering

/-!
# The search for `.robocop` and `pyproject.toml`

The search goes through a path and what is left of it without its last parts. These are the directories
above only where the path spells out a place from the root of the tree, so what is found depends on how a
directory is written.
-/

namespace SuiteLint

namespace Tree

/-! ## Where paths lead -/

theorem walk_append (t : Tree) (place parts more : List String) :
    t.walk place (parts ++ more) = (t.walk place parts).bind (t.walk · more) := by
  induction parts generalizing place with
  | nil => rfl
  | cons part parts ih =>
    rw [List.cons_append, walk, walk]
    split
    · split
      · exact ih _
      · split
        · exact ih _
        · rfl
    · rfl
    · rfl

/-- Each part is looked up in a directory, and leads out of it or to one of its entries. -/
theorem walk_cons_ok {t : Tree} {place goal : List String} {part : String} {parts : List String}
    (h : t.walk place (part :: parts) = .ok goal) :
    ∃ es, t.at? place = some (directory es) ∧
      ((part = ".." ∧ t.walk place.dropLast parts = .ok goal) ∨
        (part ≠ ".." ∧ t.walk (place ++ [part]) parts = .ok goal)) := by
  rw [walk] at h
  split at h
  · next es hplace =>
    refine ⟨es, hplace, ?_⟩
    split at h
    · next hpart => exact Or.inl ⟨hpart, h⟩
    · next hpart =>
      split at h
      · exact Or.inr ⟨hpart, h⟩
      · cases h
  · cases h
  · cases h

theorem up_not_mem_of_walk {t : Tree} {place goal parts : List String} (h : t.walk place parts = .ok goal)
    (hplace : ".." ∉ place) : ".." ∉ goal := by
  induction parts generalizing place with
  | nil =>
    rw [walk, Except.ok.injEq] at h
    exact h ▸ hplace
  | cons part parts ih =>
    obtain ⟨-, -, ⟨-, hrest⟩ | ⟨hpart, hrest⟩⟩ := walk_cons_ok h
    · exact ih hrest fun hmem => hplace (List.mem_of_mem_dropLast hmem)
    · refine ih hrest ?_
      rw [List.mem_append, List.mem_singleton, not_or]
      exact ⟨hplace, Ne.symm hpart⟩

theorem eq_append_of_walk {t : Tree} {place goal parts : List String} (h : t.walk place parts = .ok goal)
    (hparts : ".." ∉ parts) : goal = place ++ parts := by
  induction parts generalizing place with
  | nil =>
    rw [walk, Except.ok.injEq] at h
    rw [List.append_nil, h]
  | cons part parts ih =>
    rw [List.mem_cons, not_or] at hparts
    obtain ⟨-, -, ⟨hpart, -⟩ | ⟨-, hrest⟩⟩ := walk_cons_ok h
    · exact absurd hpart.symm hparts.1
    · rw [ih hrest hparts.2, List.append_assoc, List.singleton_append]

theorem walk_down {t u : Tree} {place parts : List String} (h : t.at? (place ++ parts) = some u)
    (hparts : ".." ∉ parts) : t.walk place parts = .ok (place ++ parts) := by
  induction parts generalizing place with
  | nil => rw [walk, List.append_nil]
  | cons part parts ih =>
    rw [List.mem_cons, not_or] at hparts
    rw [at?_append, Option.bind_eq_some_iff] at h
    obtain ⟨v, hplace, hpart⟩ := h
    obtain ⟨es, child, rfl, hchild, hrest⟩ := exists_entries_of_at?_cons hpart
    have hnext : t.at? (place ++ [part] ++ parts) = some u := by
      rw [at?_append, at?_append, hplace, Option.bind_some, at?_cons, entries, hchild]
      exact hrest
    rw [walk, hplace]
    simp only [hchild, Option.isSome_some, if_true, if_neg (Ne.symm hparts.1)]
    rw [ih hnext hparts.2, List.append_assoc, List.singleton_append]

theorem walk_entry {t : Tree} {place : List String} {es : List (String × Tree)}
    (h : t.at? place = some (directory es)) {name : String} (hname : name ≠ "..") :
    t.walk place [name] =
      if (t.at? (place ++ [name])).isSome then .ok (place ++ [name]) else .error .missing := by
  have hat : t.at? (place ++ [name]) = es.lookup name := by
    rw [at?_append, h, Option.bind_some, at?_cons, entries]
    cases es.lookup name <;> rfl
  rw [walk, h, hat]
  simp only [if_neg hname]
  rfl

end Tree

/-! ## The nearest of the beginnings of a place -/

namespace Project

def IsNearest (p : List String → Bool) (place d : List String) : Prop :=
  d <+: place ∧ p d = true ∧ ∀ other, other <+: place → p other = true → other <+: d

def upward (place : List String) : List (List String) :=
  (List.range (place.length + 1)).reverse.map place.take

section Nearest

variable {p : List String → Bool} {place d : List String}

private theorem isNearest_iff_eq (hp : p place = true) : IsNearest p place d ↔ d = place := by
  constructor
  · intro h
    have hle : place.length ≤ d.length := (h.2.2 place List.prefix_rfl hp).length_le
    exact h.1.eq_of_length_le hle
  · rintro rfl
    exact ⟨List.prefix_rfl, hp, fun _ hother _ => hother⟩

theorem isNearest_append_singleton {name : String} (hp : p (place ++ [name]) = false) :
    IsNearest p (place ++ [name]) d ↔ IsNearest p place d := by
  have hshort : ∀ other, p other = true → (other <+: place ++ [name] ↔ other <+: place) := by
    intro other hother
    rw [List.prefix_concat_iff, or_iff_right]
    rintro rfl
    exact Bool.false_ne_true (hp ▸ hother)
  constructor
  · intro ⟨hd, hpd, hmost⟩
    exact ⟨(hshort d hpd).mp hd, hpd, fun other ho hpo => hmost other ((hshort other hpo).mpr ho) hpo⟩
  · intro ⟨hd, hpd, hmost⟩
    exact ⟨(hshort d hpd).mpr hd, hpd, fun other ho hpo => hmost other ((hshort other hpo).mp ho) hpo⟩

theorem IsNearest.congr {q : List String → Bool} (h : IsNearest p place d)
    (hpq : ∀ other, other <+: place → p other = q other) : IsNearest q place d :=
  ⟨h.1, hpq d h.1 ▸ h.2.1, fun other ho hqo => h.2.2 other ho (hpq other ho ▸ hqo)⟩

theorem isNearest_append_iff {base way : List String} :
    IsNearest p (base ++ place) (base ++ way) ↔ IsNearest (fun e => p (base ++ e)) place way := by
  constructor
  · intro ⟨hway, hp, hmost⟩
    refine ⟨(List.prefix_append_right_inj base).mp hway, hp, fun other ho hpo => ?_⟩
    exact (List.prefix_append_right_inj base).mp (hmost _ ((List.prefix_append_right_inj base).mpr ho) hpo)
  · intro ⟨hway, hp, hmost⟩
    refine ⟨(List.prefix_append_right_inj base).mpr hway, hp, fun other ho hpo => ?_⟩
    -- What does not lie below the directory lies above it.
    rcases List.prefix_or_prefix_of_prefix ho (List.prefix_append base place) with habove | ⟨e, rfl⟩
    · exact habove.trans (List.prefix_append base way)
    · exact (List.prefix_append_right_inj base).mpr
        (hmost e ((List.prefix_append_right_inj base).mp ho) hpo)

@[simp] theorem upward_append_singleton (place : List String) (name : String) :
    upward (place ++ [name]) = (place ++ [name]) :: upward place := by
  have hbelow : ∀ n ∈ (List.range (place.length + 1)).reverse, (place ++ [name]).take n = place.take n := by
    intro n hn
    rw [List.mem_reverse, List.mem_range] at hn
    exact List.take_append_of_le_length (by omega)
  rw [upward, List.length_append, List.length_singleton, List.range_succ, List.reverse_append,
    List.reverse_singleton, List.singleton_append, List.map_cons, List.map_congr_left hbelow, upward,
    List.take_of_length_le (by simp)]

theorem find?_upward_iff : (upward place).find? p = some d ↔ IsNearest p place d := by
  induction place using List.reverseRecOn with
  | nil =>
    change [[]].find? p = some d ↔ _
    cases hp : p [] with
    | true => rw [List.find?_cons_of_pos hp, isNearest_iff_eq hp, Option.some.injEq, eq_comm]
    | false =>
      rw [List.find?_cons_of_neg (Bool.eq_false_iff.mp hp), List.find?_nil]
      refine iff_of_false nofun fun h => ?_
      rw [IsNearest, List.prefix_nil] at h
      exact Bool.false_ne_true (hp ▸ h.1 ▸ h.2.1)
  | append_singleton place name ih =>
    rw [upward_append_singleton]
    cases hp : p (place ++ [name]) with
    | true => rw [List.find?_cons_of_pos hp, isNearest_iff_eq hp, Option.some.injEq, eq_comm]
    | false => rw [List.find?_cons_of_neg (Bool.eq_false_iff.mp hp), ih, isNearest_append_singleton hp]

end Nearest

/-! ## The search -/

def holdsFile (project : Project) (name : String) (d : List String) : Bool :=
  ((project.tree.at? (d ++ [name])).bind Tree.file?).isSome

def endsSearch (project : Project) (name : String) (d : List String) : Bool :=
  (project.tree.at? (d ++ [".git"])).isSome || project.holdsFile name d

private theorem isSome_of_holdsFile {project : Project} {name : String} {d : List String}
    (h : project.holdsFile name d = true) : (project.tree.at? (d ++ [name])).isSome = true := by
  obtain ⟨f, hf⟩ := Option.isSome_iff_exists.mp h
  obtain ⟨t, ht, -⟩ := Option.bind_eq_some_iff.mp hf
  rw [ht, Option.isSome_some]

def LeadsTo (project : Project) (p : Path) (place : List String) : Prop :=
  project.placeOf? p = some place ∧ (project.tree.at? place).any Tree.isDirectory = true

instance (project : Project) (p : Path) (place : List String) : Decidable (project.LeadsTo p place) :=
  inferInstanceAs (Decidable (_ ∧ _))

/-- The test of the search: the path goes on to `.git`, or to a file of this name. -/
def passesTest (project : Project) (name : String) (p : Path) : Bool :=
  project.holds (p.join ⟨"", [".git"]⟩) || project.isFile (p.join ⟨"", [name]⟩)

def foundAt? (project : Project) (root : Path) (name : String) : Option (List String) :=
  (project.settingsFile? root name).bind project.placeOf?

/-- The search from a root comes first to this directory, of those that end it: what leads there is the
longest beginning of the root that leads to such a directory. -/
def StopsAt (project : Project) (root : Path) (name : String) (d : List String) : Prop :=
  ∃ way, IsNearest (fun w => (project.placeOf? { root with parts := w }).any (project.endsSearch name))
      root.parts way ∧
    project.placeOf? { root with parts := way } = some d

variable {project : Project} {root : Path} {name : String} {place d : List String}

theorem absolute_below_parts (project : Project) (root : Path) (way rest : List String) :
    (project.absolute { root with parts := way ++ rest }).parts =
      (project.absolute { root with parts := way }).parts ++ rest :=
  congrArg Path.parts (project.absolute_below { root with parts := way } rest)

/-- A beginning of a path that leads to a directory leads to a directory. -/
theorem LeadsTo.of_append (h : project.LeadsTo root place) {way rest : List String}
    (hparts : root.parts = way ++ rest) :
    ∃ d, project.LeadsTo { root with parts := way } d := by
  obtain ⟨hplace, hdir⟩ := h
  have hroot : root = { root with parts := way ++ rest } := by rw [← hparts]
  rw [placeOf?_eq_some_iff, hroot, absolute_below_parts, Tree.walk_append] at hplace
  cases hway : project.tree.walk [] (project.absolute { root with parts := way }).parts with
  | error e =>
    rw [hway] at hplace
    cases hplace
  | ok d =>
    rw [hway] at hplace
    refine ⟨d, placeOf?_eq_some_iff.mpr hway, ?_⟩
    cases rest with
    | nil => exact Except.ok.inj hplace ▸ hdir
    | cons part parts =>
      obtain ⟨es, hes, -⟩ := Tree.walk_cons_ok hplace
      rw [hes]
      rfl

theorem LeadsTo.exists_directory (h : project.LeadsTo root place) :
    ∃ es, project.tree.at? place = some (.directory es) := by
  obtain ⟨t, ht, hdir⟩ := (Option.any_eq_true _ _).mp h.2
  cases t with
  | file f => cases hdir
  | directory es => exact ⟨es, ht⟩

theorem LeadsTo.placeOf?_join (h : project.LeadsTo root d) (hname : name ≠ "..") :
    project.placeOf? (root.join ⟨"", [name]⟩) =
      if (project.tree.at? (d ++ [name])).isSome then some (d ++ [name]) else none := by
  obtain ⟨es, hes⟩ := h.exists_directory
  have hd := placeOf?_eq_some_iff.mp h.1
  have hparts : (project.absolute (root.join ⟨"", [name]⟩)).parts =
      (project.absolute root).parts ++ [name] :=
    project.absolute_below_parts root root.parts [name]
  rw [placeOf?, hparts, Tree.walk_append, hd]
  change (project.tree.walk d [name]).toOption = _
  rw [Tree.walk_entry hes hname]
  split <;> rfl

theorem LeadsTo.find?_join (h : project.LeadsTo root d) (hname : name ≠ "..") :
    project.find? (root.join ⟨"", [name]⟩) = project.tree.at? (d ++ [name]) := by
  rw [find?_eq_bind, h.placeOf?_join hname]
  cases hat : project.tree.at? (d ++ [name]) with
  | none => rfl
  | some t => exact hat

theorem LeadsTo.isFile_join (h : project.LeadsTo root d) (hname : name ≠ "..") :
    project.isFile (root.join ⟨"", [name]⟩) = project.holdsFile name d := by
  rw [isFile, file?, h.find?_join hname, holdsFile]

private theorem LeadsTo.passesTest_eq (h : project.LeadsTo root d) (hname : name ≠ "..") :
    project.passesTest name root = project.endsSearch name d := by
  rw [passesTest, h.isFile_join hname, holds, h.find?_join (by decide), endsSearch]

private theorem ancestors_eq (root : Path) :
    ancestors root = (upward root.parts).map fun way => { root with parts := way } := by
  rw [ancestors, upward, List.map_map]
  rfl

/-- The file that is found is named by the longest beginning of the root that passes the test. -/
theorem settingsFile?_eq_some_iff {path : Path} :
    project.settingsFile? root name = some path ↔
      ∃ way, IsNearest (fun w => project.passesTest name { root with parts := w }) root.parts way ∧
        project.isFile (({ root with parts := way } : Path).join ⟨"", [name]⟩) = true ∧
        path = ({ root with parts := way } : Path).join ⟨"", [name]⟩ := by
  rw [settingsFile?, ancestors_eq, List.find?_map]
  change (((upward root.parts).find? fun w => project.passesTest name { root with parts := w }).map _).bind _ =
    some path ↔ _
  simp only [← find?_upward_iff]
  cases (upward root.parts).find? fun w => project.passesTest name { root with parts := w } with
  | none => exact iff_of_false nofun nofun
  | some way =>
    simp only [Option.some.injEq, exists_eq_left']
    change (if _ then some _ else none) = some path ↔ _
    split
    · next hfile => rw [Option.some.injEq, eq_comm, and_iff_right hfile]
    · next hfile => exact iff_of_false nofun fun h => hfile h.1

theorem isNearest_passesTest_iff (h : project.LeadsTo root place) (hname : name ≠ "..") {way : List String} :
    IsNearest (fun w => project.passesTest name { root with parts := w }) root.parts way ↔
      IsNearest (fun w => (project.placeOf? { root with parts := w }).any (project.endsSearch name))
        root.parts way := by
  have htest : ∀ w, w <+: root.parts → project.passesTest name { root with parts := w } =
      (project.placeOf? { root with parts := w }).any (project.endsSearch name) := by
    rintro w ⟨rest, hrest⟩
    obtain ⟨d, hd⟩ := h.of_append hrest.symm
    rw [hd.passesTest_eq hname, hd.1, Option.any_some]
  exact ⟨fun hway => hway.congr htest, fun hway => hway.congr fun w hw => (htest w hw).symm⟩

/-- A file is found in the directory where the search stops, if there is one. -/
theorem foundAt?_eq_some_iff (h : project.LeadsTo root place) (hname : name ≠ "..") {file : List String} :
    project.foundAt? root name = some file ↔
      ∃ d, project.StopsAt root name d ∧ project.holdsFile name d = true ∧ file = d ++ [name] := by
  rw [foundAt?, Option.bind_eq_some_iff]
  simp only [settingsFile?_eq_some_iff, isNearest_passesTest_iff h hname]
  constructor
  · rintro ⟨path, ⟨way, hway, hfile, rfl⟩, hplace⟩
    obtain ⟨rest, hrest⟩ := hway.1
    obtain ⟨d, hd⟩ := h.of_append hrest.symm
    rw [hd.isFile_join hname] at hfile
    rw [hd.placeOf?_join hname, if_pos (isSome_of_holdsFile hfile)] at hplace
    exact ⟨d, ⟨way, hway, hd.1⟩, hfile, (Option.some.inj hplace).symm⟩
  · rintro ⟨d, ⟨way, hway, hplace⟩, hfile, rfl⟩
    obtain ⟨rest, hrest⟩ := hway.1
    obtain ⟨e, he⟩ := h.of_append hrest.symm
    obtain rfl : e = d := Option.some.inj (he.1.symm.trans hplace)
    refine ⟨_, ⟨way, hway, (he.isFile_join hname).trans hfile, rfl⟩, ?_⟩
    rw [he.placeOf?_join hname, if_pos (isSome_of_holdsFile hfile)]

theorem foundAt?_eq_iff {other : Path} {goal : List String} (h : project.LeadsTo root place)
    (hother : project.LeadsTo other goal) (hname : name ≠ "..") :
    project.foundAt? root name = project.foundAt? other name ↔
      ∀ d, project.holdsFile name d = true → (project.StopsAt root name d ↔ project.StopsAt other name d) := by
  constructor
  · intro heq d hd
    have hfound : ∀ p goal, project.LeadsTo p goal →
        (project.foundAt? p name = some (d ++ [name]) ↔ project.StopsAt p name d) := by
      intro p goal hp
      rw [foundAt?_eq_some_iff hp hname]
      constructor
      · rintro ⟨e, he, -, hfile⟩
        exact List.append_cancel_right hfile ▸ he
      · intro hstop
        exact ⟨d, hstop, hd, rfl⟩
    rw [← hfound root place h, heq, hfound other goal hother]
  · intro hstops
    refine Option.ext fun file => ?_
    rw [foundAt?_eq_some_iff h hname, foundAt?_eq_some_iff hother hname]
    refine exists_congr fun d => ?_
    rw [and_congr_left]
    intro hd
    exact hstops d hd.1

/-! ## Where the search stops -/

/-- If the beginnings of a root lead down from a directory, the search goes through the directories between
the two. -/
theorem stopsAt_iff {base : List String}
    (hbase : ∀ way, way <+: root.parts → project.placeOf? { root with parts := way } = some (base ++ way)) :
    project.StopsAt root name d ↔
      IsNearest (project.endsSearch name) (base ++ root.parts) d ∧ base <+: d := by
  have htest : ∀ way, way <+: root.parts →
      (project.placeOf? { root with parts := way }).any (project.endsSearch name) =
        project.endsSearch name (base ++ way) := by
    intro way hway
    rw [hbase way hway, Option.any_some]
  constructor
  · rintro ⟨way, hway, hplace⟩
    obtain rfl : base ++ way = d := Option.some.inj ((hbase way hway.1).symm.trans hplace)
    exact ⟨isNearest_append_iff.mpr (hway.congr htest), List.prefix_append base way⟩
  · rintro ⟨hd, way, rfl⟩
    have hway := isNearest_append_iff.mp hd
    exact ⟨way, hway.congr fun w hw => (htest w hw).symm, hbase way hway.1⟩

private theorem LeadsTo.up_not_mem (h : project.LeadsTo root place) : ".." ∉ place :=
  Tree.up_not_mem_of_walk (placeOf?_eq_some_iff.mp h.1) List.not_mem_nil

theorem LeadsTo.placeOf?_rooted (h : project.LeadsTo root place) {way : List String} (hway : way <+: place) :
    project.placeOf? ⟨"/", way⟩ = some way := by
  obtain ⟨rest, rfl⟩ := hway
  obtain ⟨es, hes⟩ := h.exists_directory
  rw [Tree.at?_append, Option.bind_eq_some_iff] at hes
  obtain ⟨t, ht, -⟩ := hes
  have hup : ".." ∉ way := fun hmem => h.up_not_mem (List.mem_append_left rest hmem)
  exact placeOf?_eq_some_iff.mpr (Tree.walk_down ht hup)

private theorem LeadsTo.rooted (h : project.LeadsTo root place) : project.LeadsTo ⟨"/", place⟩ place :=
  ⟨h.placeOf?_rooted List.prefix_rfl, h.2⟩

private theorem LeadsTo.stopsAt_rooted_iff (h : project.LeadsTo root place) :
    project.StopsAt ⟨"/", place⟩ name d ↔ IsNearest (project.endsSearch name) place d := by
  have hbase : ∀ way, way <+: place → project.placeOf? ⟨"/", way⟩ = some ([] ++ way) :=
    fun way hway => h.placeOf?_rooted hway
  rw [stopsAt_iff hbase, and_iff_left List.nil_prefix, List.nil_append]

/-- The search from a path down from the working directory stops there at the latest. -/
theorem LeadsTo.stopsAt_relative_iff (h : project.LeadsTo root place) {base : List String}
    (hcwd : project.LeadsTo ⟨"", []⟩ base) (hroot : root.root = "") (hup : ".." ∉ root.parts) :
    project.StopsAt root name d ↔ IsNearest (project.endsSearch name) place d ∧ base <+: d := by
  obtain ⟨rootName, parts⟩ := root
  obtain rfl : rootName = "" := hroot
  -- From the working directory each beginning leads as far down as it is long.
  have hdown : ∀ way rest, parts = way ++ rest → ∀ e, project.placeOf? ⟨"", way⟩ = some e → e = base ++ way := by
    intro way rest hparts e he
    rw [placeOf?_eq_some_iff] at he
    have hcwd := placeOf?_eq_some_iff.mp hcwd.1
    have habs : (project.absolute ⟨"", way⟩).parts = (project.absolute ⟨"", []⟩).parts ++ way :=
      project.absolute_below_parts ⟨"", parts⟩ [] way
    rw [habs, Tree.walk_append, hcwd] at he
    exact Tree.eq_append_of_walk he fun hmem => hup (hparts ▸ List.mem_append_left rest hmem)
  have hplace : place = base ++ parts := hdown parts [] (List.append_nil parts).symm place h.1
  have hbase : ∀ way, way <+: parts → project.placeOf? ⟨"", way⟩ = some (base ++ way) := by
    rintro way ⟨rest, hrest⟩
    obtain ⟨e, he⟩ := h.of_append hrest.symm
    exact hdown way rest hrest.symm e he.1 ▸ he.1
  rw [hplace]
  exact stopsAt_iff hbase

/-- What is found from a path that spells out a place is the file of this name, as `.robocop` or
`pyproject.toml`, in the nearest directory that holds it or a `.git`. Another way to write the place comes to
the same exactly if, of the directories with the file, it stops at that one only; and a way down from the
working directory, exactly if the nearest directory does not lie above that directory where it holds the file.
-/
theorem settings_found_alike_iff (h : project.LeadsTo root place) (hname : name ≠ "..") :
    (∀ file, project.foundAt? ⟨"/", place⟩ name = some file ↔
      ∃ d, IsNearest (project.endsSearch name) place d ∧ project.holdsFile name d = true ∧
        file = d ++ [name]) ∧
    (project.foundAt? root name = project.foundAt? ⟨"/", place⟩ name ↔
      ∀ d, project.holdsFile name d = true →
        (project.StopsAt root name d ↔ IsNearest (project.endsSearch name) place d)) ∧
    (∀ base, project.LeadsTo ⟨"", []⟩ base → root.root = "" → ".." ∉ root.parts →
      (project.foundAt? root name = project.foundAt? ⟨"/", place⟩ name ↔
        ∀ d, IsNearest (project.endsSearch name) place d → project.holdsFile name d = true → base <+: d)) := by
  have hsame : project.foundAt? root name = project.foundAt? ⟨"/", place⟩ name ↔
      ∀ d, project.holdsFile name d = true →
        (project.StopsAt root name d ↔ IsNearest (project.endsSearch name) place d) := by
    rw [foundAt?_eq_iff h h.rooted hname]
    simp only [h.stopsAt_rooted_iff]
  refine ⟨fun file => ?_, hsame, fun base hcwd hroot hup => ?_⟩
  · rw [foundAt?_eq_some_iff h.rooted hname]
    simp only [h.stopsAt_rooted_iff]
  · rw [hsame]
    refine forall_congr' fun d => ?_
    rw [h.stopsAt_relative_iff hcwd hroot hup, and_iff_left_iff_imp]
    exact ⟨fun hd hnear hfile => hd hfile hnear, fun hd hfile hnear => hd hnear hfile⟩

def nested (cwd : List String) : Project where
  tree := .directory [("proj", .directory [(".git", .directory []), (".robocop", .file (.plain [])),
    ("sub", .directory [("tests", .directory [(".robocop", .file (.plain []))])])])]
  cwd := ⟨"/", cwd⟩
  modules := []
  written := []
  readToml _ := none

theorem settings_found_alike_iff_fromTop :
    (nested ["proj"]).LeadsTo ⟨"", ["sub"]⟩ ["proj", "sub"] ∧
    (nested ["proj"]).foundAt? ⟨"", ["sub"]⟩ ".robocop" = some ["proj", ".robocop"] ∧
    IsNearest ((nested ["proj"]).endsSearch ".robocop") ["proj", "sub"] ["proj"] ∧
    ∀ d, IsNearest ((nested ["proj"]).endsSearch ".robocop") ["proj", "sub"] d →
      (nested ["proj"]).holdsFile ".robocop" d = true → ["proj"] <+: d := by
  have hroot : (nested ["proj"]).LeadsTo ⟨"", ["sub"]⟩ ["proj", "sub"] := by decide +kernel
  have hfound : (nested ["proj"]).foundAt? ⟨"", ["sub"]⟩ ".robocop" = some ["proj", ".robocop"] := by
    decide +kernel
  have hspelled : (nested ["proj"]).foundAt? ⟨"/", ["proj", "sub"]⟩ ".robocop" =
      some ["proj", ".robocop"] := by
    decide +kernel
  have hname : ".robocop" ≠ ".." := by decide
  obtain ⟨hnearest, -, hdown⟩ := settings_found_alike_iff hroot hname
  obtain ⟨d, hd, -, hfile⟩ := (hnearest _).mp hspelled
  obtain rfl : ["proj"] = d := List.append_cancel_right hfile
  have hcwd : (nested ["proj"]).LeadsTo ⟨"", []⟩ ["proj"] := by decide +kernel
  exact ⟨hroot, hfound, hd, (hdown ["proj"] hcwd rfl (by decide)).mp (hfound.trans hspelled.symm)⟩

/-- The search does not leave the working directory by itself, and after a step upward it comes back to it. -/
theorem settings_missed_from_working_directory :
    ((nested ["proj", "sub"]).LeadsTo ⟨"", []⟩ ["proj", "sub"] ∧
      (nested ["proj", "sub"]).foundAt? ⟨"", []⟩ ".robocop" = none ∧
      (nested ["proj", "sub"]).foundAt? ⟨"/", ["proj", "sub"]⟩ ".robocop" = some ["proj", ".robocop"]) ∧
    (nested ["proj", "sub", "tests"]).LeadsTo ⟨"", [".."]⟩ ["proj", "sub"] ∧
      (nested ["proj", "sub", "tests"]).foundAt? ⟨"", [".."]⟩ ".robocop" =
        some ["proj", "sub", "tests", ".robocop"] ∧
      (nested ["proj", "sub", "tests"]).foundAt? ⟨"/", ["proj", "sub"]⟩ ".robocop" =
        some ["proj", ".robocop"] := by
  decide +kernel

end Project

end SuiteLint
