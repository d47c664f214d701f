import SuiteLint.Session

/-!
# Lines in the output file

A line that is written to a file is put at the place of the file in the tree. This changes nothing about the
ways that lead through the tree, so the next line comes behind the first.
-/

namespace SuiteLint

namespace Tree

theorem lookup_putEntry (name other : String) (new : Tree) (es : List (String × Tree)) :
    (putEntry name new es).lookup other = if other = name then some new else es.lookup other := by
  induction es with
  | nil =>
    rw [putEntry, List.lookup_cons]
    by_cases h : other = name
    · simp [h]
    · simp [h, beq_eq_false_iff_ne.mpr h]
  | cons entry es ih =>
    obtain ⟨first, t⟩ := entry
    rw [putEntry]
    by_cases hname : name = first
    · subst hname
      rw [if_pos rfl, List.lookup_cons, List.lookup_cons]
      by_cases h : other = name
      · simp [h]
      · simp [h, beq_eq_false_iff_ne.mpr h]
    · rw [if_neg hname]
      by_cases h : other = name
      · subst h
        rw [if_pos rfl] at ih ⊢
        split
        · rw [List.lookup_cons, beq_self_eq_true]
        · rw [List.lookup_cons, beq_eq_false_iff_ne.mpr hname, ih]
      · rw [if_neg h]
        split
        · rw [List.lookup_cons, beq_eq_false_iff_ne.mpr h]
        · rw [List.lookup_cons, List.lookup_cons, ih, if_neg h]

def shapeAt (t : Tree) (place : List String) : Option Bool := (t.at? place).map isDirectory

@[simp] theorem at?_cons (t : Tree) (name : String) (names : List String) :
    t.at? (name :: names) = (t.entries.lookup name).bind (at? names) := rfl

theorem at?_append (t : Tree) (place more : List String) :
    t.at? (place ++ more) = (t.at? place).bind (at? more) := by
  induction place generalizing t with
  | nil => rfl
  | cons name names ih =>
    rw [List.cons_append, at?_cons, at?_cons, Option.bind_assoc]
    congr
    funext u
    exact ih u

theorem exists_entries_of_at?_cons {t u : Tree} {name : String} {names : List String}
    (h : t.at? (name :: names) = some u) :
    ∃ es child, t = directory es ∧ es.lookup name = some child ∧ child.at? names = some u := by
  rw [at?_cons, Option.bind_eq_some_iff] at h
  obtain ⟨child, hchild, hat⟩ := h
  cases t with
  | file f => exact absurd hchild (by simp [entries])
  | directory es => exact ⟨es, child, rfl, hchild, hat⟩

theorem at?_put_self {t u : Tree} {place : List String} (h : t.at? place = some u) (new : Tree) :
    (t.put place new).at? place = some new := by
  induction place generalizing t with
  | nil => cases t <;> rfl
  | cons name names ih =>
    obtain ⟨es, child, rfl, hchild, hat⟩ := exists_entries_of_at?_cons h
    rw [put, at?_cons, entries, lookup_putEntry, if_pos rfl, hchild]
    exact ih hat

theorem shapeAt_put_file {t : Tree} {f : SuiteFile} {place : List String}
    (h : t.at? place = some (file f)) (g : SuiteFile) (other : List String) :
    (t.put place (file g)).shapeAt other = t.shapeAt other := by
  induction place generalizing t other with
  | nil =>
    obtain rfl := Option.some.inj h
    cases other <;> rfl
  | cons name names ih =>
    obtain ⟨es, child, rfl, hchild, hat⟩ := exists_entries_of_at?_cons h
    cases other with
    | nil => rfl
    | cons first more =>
      rw [shapeAt, shapeAt, put, at?_cons, at?_cons, entries, entries, lookup_putEntry]
      by_cases hfirst : first = name
      · subst hfirst
        rw [if_pos rfl, hchild]
        exact ih hat more
      · rw [if_neg hfirst]

/-- A file at another place stays as it is. -/
theorem file?_at?_put_of_ne {t : Tree} {f : SuiteFile} {place other : List String}
    (h : t.at? place = some (file f)) (g : SuiteFile) (hne : other ≠ place) :
    ((t.put place (file g)).at? other).bind file? = (t.at? other).bind file? := by
  induction place generalizing t other with
  | nil =>
    obtain rfl := Option.some.inj h
    cases other with
    | nil => exact absurd rfl hne
    | cons first more => rfl
  | cons name names ih =>
    obtain ⟨es, child, rfl, hchild, hat⟩ := exists_entries_of_at?_cons h
    cases other with
    | nil => rfl
    | cons first more =>
      rw [put, at?_cons, at?_cons, entries, entries, lookup_putEntry]
      by_cases hfirst : first = name
      · subst hfirst
        rw [if_pos rfl, hchild]
        exact ih hat fun hmore => hne (hmore ▸ rfl)
      · rw [if_neg hfirst]

theorem walk_congr {t u : Tree} (h : ∀ place, u.shapeAt place = t.shapeAt place)
    (place parts : List String) : u.walk place parts = t.walk place parts := by
  have hentry (t : Tree) {place : List String} {es : List (String × Tree)}
      (hat : t.at? place = some (directory es)) (part : String) :
      (es.lookup part).isSome = (t.shapeAt (place ++ [part])).isSome := by
    rw [shapeAt, Option.isSome_map, at?_append, hat, Option.bind_some, at?_cons, entries]
    cases es.lookup part <;> rfl
  induction parts generalizing place with
  | nil => rfl
  | cons part parts ih =>
    have hplace := h place
    rw [walk, walk]
    unfold shapeAt at hplace
    cases ht : t.at? place with
    | none =>
      rw [ht, Option.map_none, Option.map_eq_none_iff] at hplace
      rw [hplace]
    | some v =>
      rw [ht] at hplace
      obtain ⟨w, hw, hkind⟩ := Option.map_eq_some_iff.mp hplace
      rw [hw]
      cases v with
      | file f =>
        cases w with
        | file g => rfl
        | directory es => exact absurd hkind (by simp [isDirectory])
      | directory es =>
        cases w with
        | file g => exact absurd hkind (by simp [isDirectory])
        | directory es' =>
          simp only [ih, hentry u hw, hentry t ht, h]

end Tree

namespace Project

variable {project : Project} {name : String} {f : SuiteFile}

def placeOf? (project : Project) (p : Path) : Option (List String) :=
  (project.tree.walk [] (project.absolute p).parts).toOption

theorem placeOf?_eq_some_iff {p : Path} {place : List String} :
    project.placeOf? p = some place ↔ project.tree.walk [] (project.absolute p).parts = .ok place := by
  rw [placeOf?]
  cases project.tree.walk [] (project.absolute p).parts with
  | ok goal => exact ⟨fun h => congrArg Except.ok (Option.some.inj h), fun h => congrArg some (Except.ok.inj h)⟩
  | error e => exact iff_of_false nofun nofun

theorem find?_eq_bind (project : Project) (p : Path) :
    project.find? p = (project.placeOf? p).bind (project.tree.at? ·) := by
  rw [find?, Tree.find?, placeOf?]
  cases project.tree.walk [] (project.absolute p).parts <;> rfl

/-- A text is put behind a file at its place. -/
theorem append_eq (h : project.file? (.ofString name) = some f) (text : String) :
    ∃ place, project.placeOf? (.ofString name) = some place ∧ project.tree.at? place = some (.file f) ∧
      project.append name text = { project with
        tree := project.tree.put place (.file (.plain (f.bytes ++ text.toUTF8.toList))) } := by
  rw [file?, find?_eq_bind, Option.bind_eq_some_iff] at h
  obtain ⟨t, ht, hf⟩ := h
  obtain ⟨place, hplace, hat⟩ := Option.bind_eq_some_iff.mp ht
  have hwalk := placeOf?_eq_some_iff.mp hplace
  cases t with
  | directory es => cases hf
  | file g =>
    obtain rfl := Option.some.inj hf
    have hput : project.place (.ofString name) = .ok place := by simp only [Project.place, hwalk, hat]
    refine ⟨place, hplace, hat, ?_⟩
    simp only [append, hput, hat]
    rfl

theorem placeOf?_append (h : project.file? (.ofString name) = some f) (text : String) (p : Path) :
    (project.append name text).placeOf? p = project.placeOf? p := by
  obtain ⟨place, -, hat, happend⟩ := append_eq h text
  rw [happend, placeOf?, placeOf?]
  exact congrArg Except.toOption (Tree.walk_congr (Tree.shapeAt_put_file hat _) [] _)

theorem file?_append (h : project.file? (.ofString name) = some f) (text : String) :
    (project.append name text).file? (.ofString name) =
      some (.plain (f.bytes ++ text.toUTF8.toList)) := by
  have hsame := placeOf?_append h text (.ofString name)
  obtain ⟨place, hplace, hat, happend⟩ := append_eq h text
  rw [file?, find?_eq_bind, hsame, hplace, happend, Option.bind_some, Tree.at?_put_self hat]
  rfl

theorem file?_append_of_ne (h : project.file? (.ofString name) = some f) (text : String) {p : Path}
    (hne : project.placeOf? p ≠ project.placeOf? (.ofString name)) :
    (project.append name text).file? p = project.file? p := by
  have hsame := placeOf?_append h text p
  obtain ⟨place, hplace, hat, happend⟩ := append_eq h text
  rw [file?, file?, find?_eq_bind, find?_eq_bind, hsame, happend]
  cases hp : project.placeOf? p with
  | none => rfl
  | some other => exact Tree.file?_at?_put_of_ne hat _ fun heq => hne (by rw [hp, hplace, heq])

private theorem cwd_append (project : Project) (name text : String) :
    (project.append name text).cwd = project.cwd := by
  unfold append
  split <;> rfl

end Project

namespace Session

def bytesOf (lines : List String) : List UInt8 :=
  lines.flatMap fun line => (line ++ "\n").toUTF8.toList

def writeAll (s : Session) (output : Option String) (lines : List String) : Session :=
  lines.foldl (fun s line => s.write output line) s

@[simp] theorem cwd_write (s : Session) (output : Option String) (line : String) :
    (s.write output line).project.cwd = s.project.cwd := by
  cases output with
  | none => rfl
  | some name => exact Project.cwd_append ..

theorem printed_writeAll (s : Session) (lines : List String) :
    (s.writeAll none lines).printed = s.printed ++ lines := by
  induction lines generalizing s with
  | nil => exact (List.append_nil _).symm
  | cons line lines ih => exact (ih (s.say line)).trans (List.append_cons ..).symm

theorem file?_writeAll {s : Session} {name : String} {f : SuiteFile}
    (h : s.project.file? (Path.ofString name) = some f) (lines : List String) :
    ((s.writeAll (some name) lines).project.file? (Path.ofString name)).map (·.bytes) =
      some (f.bytes ++ bytesOf lines) := by
  induction lines generalizing s f with
  | nil => rw [writeAll, List.foldl_nil, h, Option.map_some, bytesOf, List.flatMap_nil, List.append_nil]
  | cons line lines ih =>
    have hline : (s.write (some name) line).project.file? (Path.ofString name) =
        some (.plain (f.bytes ++ (line ++ "\n").toUTF8.toList)) := Project.file?_append h _
    rw [bytesOf, List.flatMap_cons, ← List.append_assoc]
    exact ih hline

@[simp] theorem project_writeAll_none (s : Session) (lines : List String) :
    (s.writeAll none lines).project = s.project := by
  induction lines generalizing s with
  | nil => rfl
  | cons line lines ih => exact ih (s.say line)

/-- Lines in the output file change no other file. -/
theorem file?_writeAll_of_ne {s : Session} {name : String} {f : SuiteFile} {p : Path}
    (h : s.project.file? (.ofString name) = some f)
    (hne : s.project.placeOf? p ≠ s.project.placeOf? (.ofString name)) (lines : List String) :
    (s.writeAll (some name) lines).project.file? p = s.project.file? p := by
  induction lines generalizing s f with
  | nil => rfl
  | cons line lines ih =>
    have hplaces := Project.placeOf?_append h (line ++ "\n")
    refine Eq.trans (ih (Project.file?_append h _) ?_) (Project.file?_append_of_ne h _ hne)
    exact fun heq => hne ((hplaces p).symm.trans (heq.trans (hplaces _)))

theorem project_writeAll_congr {s s' : Session} (h : s.project = s'.project) (output : Option String)
    (lines : List String) : (s.writeAll output lines).project = (s'.writeAll output lines).project := by
  induction lines generalizing s s' with
  | nil => exact h
  | cons line lines ih =>
    refine ih ?_
    cases output with
    | none => exact h
    | some name => exact congrArg (·.append name (line ++ "\n")) h

end Session

end SuiteLint
