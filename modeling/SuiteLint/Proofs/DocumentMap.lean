import SuiteLint.Suite.Document

/-!
# Documents with other statements

A document whose statements are replaced one by one is visited in the same order.
-/

namespace SuiteLint

variable (g : Statement → Statement)

namespace Node

mutual

/-- A node with other statements in the same places. -/
def map : Node → Node
  | .leaf s => .leaf (g s)
  | .block kind header body orelse close errors =>
    .block kind (g header) (mapAll body) (mapBranch orelse) (close.map g) errors

def mapAll : List Node → List Node
  | [] => []
  | n :: ns => n.map :: mapAll ns

def mapBranch : Option Node → Option Node
  | none => none
  | some n => some n.map

end

@[simp] theorem mapAll_eq (ns : List Node) : mapAll g ns = ns.map (map g) := by
  induction ns with
  | nil => simp [mapAll]
  | cons n ns ih => simp [mapAll, ih]

@[simp] theorem mapBranch_eq (n : Option Node) : mapBranch g n = n.map (map g) := by
  cases n <;> simp [mapBranch]

@[simp] theorem map_leaf (s : Statement) : map g (.leaf s) = .leaf (g s) := by simp [map]

@[simp] theorem map_block (kind : BlockKind) (header : Statement) (body : List Node)
    (orelse : Option Node) (close : Option Statement) (errors : List String) :
    map g (.block kind header body orelse close errors) =
      .block kind (g header) (body.map (map g)) (orelse.map (map g)) (close.map g) errors := by
  simp [map]

variable (stop : BlockKind → Bool)

mutual

@[simp] theorem visitedUntil_map : ∀ n : Node,
    (n.map g).visitedUntil stop = (n.visitedUntil stop).map (map g)
  | .leaf s => by simp [visitedUntil]
  | .block kind header body orelse close errors => by
    rw [map_block, visitedUntil, visitedUntil]
    split
    · simp
    · cases close <;> simp [visitedUntilAll_map body, visitedUntilBranch_map orelse]

private theorem visitedUntilAll_map : ∀ ns : List Node,
    visitedUntilAll stop (ns.map (map g)) = (visitedUntilAll stop ns).map (map g)
  | [] => by simp [visitedUntilAll]
  | n :: ns => by
    simp [visitedUntilAll, visitedUntil_map n, visitedUntilAll_map ns]

private theorem visitedUntilBranch_map : ∀ n : Option Node,
    visitedUntilBranch stop (n.map (map g)) = (visitedUntilBranch stop n).map (map g)
  | none => by simp [visitedUntilBranch]
  | some n => by simp [visitedUntilBranch, visitedUntil_map n]

end

@[simp] theorem visited_map (n : Node) : (n.map g).visited = n.visited.map (map g) :=
  visitedUntil_map g _ n

private theorem statement?_map (n : Node) : (n.map g).statement? = n.statement?.map g := by
  cases n <;> simp [statement?]

@[simp] theorem filterMap_statement?_map (ns : List Node) :
    (ns.map (map g)).filterMap statement? = (ns.filterMap statement?).map g := by
  rw [List.filterMap_map, List.map_filterMap]
  exact congrArg (List.filterMap · ns) (funext (statement?_map g))

@[simp] theorem statements_map (n : Node) : (n.map g).statements = n.statements.map g := by
  rw [statements, visited_map, filterMap_statement?_map, statements]

@[simp] theorem isBlockWith_map (p : BlockKind → Bool) (n : Node) :
    (n.map g).isBlockWith p = n.isBlockWith p := by
  cases n <;> simp [isBlockWith]

@[simp] theorem isBlock_map (kind : BlockKind) (n : Node) : (n.map g).isBlock kind = n.isBlock kind :=
  isBlockWith_map g _ n

@[simp] theorem header?_map (n : Node) : (n.map g).header? = n.header?.map g := by
  cases n <;> simp [header?]

@[simp] theorem body_map (n : Node) : (n.map g).body = n.body.map (map g) := by
  cases n <;> simp [body]

@[simp] theorem close?_map (n : Node) : (n.map g).close? = n.close?.map g := by
  cases n <;> simp [close?]

mutual

theorem branches_map : ∀ n : Node, (n.map g).branches = n.branches.map (map g)
  | .leaf s => by simp [branches]
  | .block kind header body orelse close errors => by
    simp [branches, branchesOf_map orelse]

private theorem branchesOf_map : ∀ n : Option Node,
    branchesOf (n.map (map g)) = (branchesOf n).map (map g)
  | none => by simp [branchesOf]
  | some n => by simp [branchesOf, branches_map n]

end

end Node

namespace Section

def map (s : Section) : Section := ⟨s.kind, s.header.map g, s.body.map (Node.map g)⟩

@[simp] theorem kind_map (s : Section) : (s.map g).kind = s.kind := rfl

@[simp] theorem header_map (s : Section) : (s.map g).header = s.header.map g := rfl

@[simp] theorem body_map (s : Section) : (s.map g).body = s.body.map (Node.map g) := rfl

theorem visitedUntil_map (s : Section) (stop : BlockKind → Bool) :
    (s.map g).visitedUntil stop = (s.visitedUntil stop).map (Node.map g) := by
  obtain ⟨kind, header, body⟩ := s
  cases header <;> simp [map, visitedUntil, Node.visitedUntilAll_map]

@[simp] theorem visited_map (s : Section) : (s.map g).visited = s.visited.map (Node.map g) :=
  visitedUntil_map g s _

@[simp] theorem statements_map (s : Section) : (s.map g).statements = s.statements.map g := by
  rw [statements, visited_map, Node.filterMap_statement?_map, statements]

@[simp] theorem outermost_map (s : Section) (p : BlockKind → Bool) :
    (s.map g).outermost p = (s.outermost p).map (Node.map g) := by
  simp [outermost, visitedUntil_map, List.filter_map, Function.comp_def]

end Section

namespace Document

def map (d : Document) : Document := ⟨d.source, d.sections.map (Section.map g)⟩

@[simp] theorem source_map (d : Document) : (d.map g).source = d.source := rfl

@[simp] theorem sections_map (d : Document) : (d.map g).sections = d.sections.map (Section.map g) := rfl

@[simp] theorem visited_map (d : Document) : (d.map g).visited = d.visited.map (Node.map g) := by
  simp [visited, List.flatMap_map, List.map_flatMap]

@[simp] theorem statements_map (d : Document) : (d.map g).statements = d.statements.map g := by
  simp [statements, List.flatMap_map, List.map_flatMap]

@[simp] theorem outermost_map (d : Document) (p : BlockKind → Bool) :
    (d.map g).outermost p = (d.outermost p).map (Node.map g) := by
  simp [outermost, List.flatMap_map, List.map_flatMap]

@[simp] theorem blocksOf_map (d : Document) (kind : BlockKind) :
    (d.map g).blocksOf kind = (d.blocksOf kind).map (Node.map g) := by
  simp [blocksOf, List.filter_map, Function.comp_def]

end Document

end SuiteLint
