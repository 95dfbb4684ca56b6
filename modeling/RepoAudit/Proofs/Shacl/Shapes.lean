import RepoAudit.Proofs.Shacl.Compilation

/-!
# What compiled shapes are made of

A compiled shape and all property shapes below it say what the shapes graph says of their nodes.
`ofGraph_every` carries a property of such shapes to every shape of a set.
-/

namespace RepoAudit.Shacl

open Rdf

/-- A shape and all shapes below it satisfy `P`. -/
inductive Shape.Every (P : Shape → Prop) : Shape → Prop where
  | intro {s : Shape} (here : P s) (below : ∀ child ∈ s.properties, Every P child) : Every P s

/-- All shapes of a set satisfy `P`, attached ones included. -/
def ShapeSet.Every (P : Shape → Prop) (set : ShapeSet) : Prop := ∀ s ∈ set.shapes, s.Every P

theorem Shape.Every.here {P : Shape → Prop} {s : Shape} (every : s.Every P) : P s := by
  cases every
  assumption

theorem Shape.Every.imp {P Q : Shape → Prop} {s : Shape} (every : s.Every P)
    (weaker : ∀ s, P s → Q s) : s.Every Q := by
  induction every with
  | intro here _ ih => exact .intro (weaker _ here) ih

theorem mem_of_mapM {α β : Type} {f : α → Option β} :
    ∀ {xs : List α} {ys : List β}, xs.mapM f = some ys → ∀ y ∈ ys, ∃ x ∈ xs, f x = some y
  | [], ys, found, y, member => by
    obtain rfl : [] = ys := Option.some.inj found
    simp at member
  | x :: rest, ys, found, y, member => by
    rw [List.mapM_cons] at found
    obtain ⟨first, ofFirst, found⟩ := Option.bind_eq_some_iff.mp found
    obtain ⟨others, ofRest, found⟩ := Option.bind_eq_some_iff.mp found
    obtain rfl : first :: others = ys := Option.some.inj found
    rcases List.mem_cons.mp member with rfl | member
    · exact ⟨x, .head _, ofFirst⟩
    · obtain ⟨z, listed, same⟩ := mem_of_mapM ofRest y member
      exact ⟨z, .tail _ listed, same⟩

section Compiled

variable {g : Graph} (known : Term → Prop) {P : Shape → Prop}
  (attached : ∀ s p, known s → Attaches g s p → known p)
  (each : ∀ id properties, (∀ child ∈ properties, child.path.isSome = true) → known id →
    P (Statements.shape ⟨g, id⟩ properties))

include attached each

theorem compileShape_every (id : Term) (r : Shape × List (Term × String))
    (compiled : g.compileShape id = some r) : known id → r.1.Every P := by
  refine Graph.compileShape.partial_correctness g (fun id r => known id → r.1.Every P) ?_
    id r compiled
  intro approximation ih id r found here
  obtain ⟨children, listed, found⟩ := Option.bind_eq_some_iff.mp found
  obtain rfl := Option.some.inj found
  refine .intro (each id _ (fun _ member => (List.mem_filter.mp member).2) here)
    fun child member => ?_
  obtain ⟨pair, kept, rfl⟩ := List.mem_map.mp (List.mem_filter.mp member).1
  obtain ⟨p, stated, below⟩ := mem_of_mapM listed pair kept
  exact ih p pair below (attached id p here (mem_all_property.mp stated))

/-- What holds of each shape as its node states it holds of every shape of a compiled set. -/
theorem ofGraph_every {set : ShapeSet} (compiled : ShapeSet.ofGraph g = some set)
    (rooted : ∀ root ∈ roots g, known root) : set.Every P := by
  obtain ⟨pairs, listed, found⟩ := Option.bind_eq_some_iff.mp compiled
  obtain rfl := Option.some.inj found
  intro s member
  obtain ⟨pair, kept, rfl⟩ := List.mem_map.mp (List.mem_filter.mp member).1
  obtain ⟨root, isRoot, below⟩ := mem_of_mapM listed pair kept
  exact compileShape_every known attached each root pair below (rooted root isRoot)

end Compiled

namespace Statements

variable (s : Statements) (properties : List Shape)

@[simp] theorem shape_id : (s.shape properties).id = s.id := rfl

@[simp] theorem shape_targets : (s.shape properties).targets = s.targets := rfl

@[simp] theorem shape_path : (s.shape properties).path = s.path := rfl

@[simp] theorem shape_constraints : (s.shape properties).constraints = s.constraints := rfl

@[simp] theorem shape_deactivated : (s.shape properties).deactivated = s.deactivated := rfl

end Statements

/-- A shape is what the shapes graph says of its node, with property shapes that have paths. -/
structure Shape.StatedBy (g : Graph) (s : Shape) : Prop where
  shape : s = Statements.shape ⟨g, s.id⟩ s.properties
  properties : ∀ child ∈ s.properties, child.path.isSome = true

section StatedBy

variable {g : Graph} {s : Shape}

theorem Shape.StatedBy.targets (stated : s.StatedBy g) :
    s.targets = Statements.targets ⟨g, s.id⟩ :=
  (congrArg Shape.targets stated.shape).trans (Statements.shape_targets _ _)

theorem Shape.StatedBy.path (stated : s.StatedBy g) : s.path = Statements.path ⟨g, s.id⟩ :=
  (congrArg Shape.path stated.shape).trans (Statements.shape_path _ _)

theorem Shape.StatedBy.constraints (stated : s.StatedBy g) :
    s.constraints = Statements.constraints ⟨g, s.id⟩ :=
  (congrArg Shape.constraints stated.shape).trans (Statements.shape_constraints _ _)

theorem Shape.StatedBy.deactivated (stated : s.StatedBy g) :
    s.deactivated = Statements.deactivated ⟨g, s.id⟩ :=
  (congrArg Shape.deactivated stated.shape).trans (Statements.shape_deactivated _ _)

end StatedBy

theorem ofGraph_statedBy {g : Graph} {set : ShapeSet} (compiled : ShapeSet.ofGraph g = some set) :
    set.Every (Shape.StatedBy g) :=
  ofGraph_every (fun _ => True) (fun _ _ _ _ => trivial) (fun _ _ paths _ => ⟨rfl, paths⟩) compiled
    fun _ _ => trivial

theorem compileShape_of_attached {g : Graph} {id : Term} {children : List (Shape × List (Term × String))}
    (listed : (Statements.all ⟨g, id⟩ "property").mapM g.compileShape = some children) :
    g.compileShape id = some
      (Statements.shape ⟨g, id⟩ ((children.map (·.1)).filter (·.path.isSome)),
        Statements.skipped ⟨g, id⟩ ++ children.flatMap (·.2)) := by
  rw [Graph.compileShape]
  change ((Statements.all ⟨g, id⟩ "property").mapM g.compileShape).bind _ = _
  rw [listed]
  rfl

/-- A shape without property shapes is compiled to what it says itself. -/
theorem compileShape_alone {g : Graph} {id : Term}
    (alone : Statements.all ⟨g, id⟩ "property" = []) :
    g.compileShape id = some (Statements.shape ⟨g, id⟩ [], Statements.skipped ⟨g, id⟩) := by
  have none : (Statements.all ⟨g, id⟩ "property").mapM g.compileShape = some [] := by
    rw [alone]
    rfl
  simpa using compileShape_of_attached none

/-- A shapes graph with one root, which has no property shapes, is compiled to its shape. -/
theorem ofGraph_alone {g : Graph} {id : Term} (root : (roots g).toList = [id])
    (alone : Statements.all ⟨g, id⟩ "property" = []) (supported : Statements.skipped ⟨g, id⟩ = [])
    (targeted : (Statements.targets ⟨g, id⟩).isEmpty = false) :
    ShapeSet.ofGraph g = some { shapes := [Statements.shape ⟨g, id⟩ []] } := by
  rw [ShapeSet.ofGraph, root, List.mapM_cons, compileShape_alone alone, supported]
  change some (ShapeSet.mk ([Statements.shape ⟨g, id⟩ []].filter fun t => !t.targets.isEmpty) []) = _
  rw [List.filter_cons_of_pos]
  · rfl
  · change (!(Statements.targets ⟨g, id⟩).isEmpty) = true
    rw [targeted]
    rfl

/-! ### Constraints -/

section Stated

variable {s : Statements}

theorem ofClass_mem_constraints {c : Term} :
    .ofClass c ∈ s.constraints ↔ s.first? "class" = some c := by
  simp [Statements.constraints, Statements.nodeKind?, Statements.pattern?, Option.bind_eq_some_iff]

theorem isIn_mem_constraints {allowed : List Term} (stated : .isIn allowed ∈ s.constraints) :
    ∃ head, s.graph.listItems head = allowed := by
  have listed : ∃ head, s.first? "in" = some head ∧ s.graph.listItems head = allowed := by
    simpa [Statements.constraints, Statements.nodeKind?, Statements.pattern?,
      Option.bind_eq_some_iff] using stated
  obtain ⟨head, -, same⟩ := listed
  exact ⟨head, same⟩

theorem hasValue_mem_constraints {u : Term} : .hasValue u ∈ s.constraints ↔ u ∈ s.all "hasValue" := by
  simp [Statements.constraints, Statements.nodeKind?, Statements.pattern?, Option.bind_eq_some_iff]

end Stated

/-! ### Roots -/

theorem mem_roots {g : Graph} {root : Term} : root ∈ roots g ↔
    (∃ type ∈ ["NodeShape", "PropertyShape"], ⟨root, .iri (rdf "type"), .iri (sh type)⟩ ∈ g) ∨
    ∃ p ∈ ["targetClass", "targetNode", "targetSubjectsOf", "targetObjectsOf"],
      ∃ o, ⟨root, .iri (sh p), o⟩ ∈ g := by
  simp only [roots, SortedSet.mem_ofList, List.mem_append, List.mem_flatMap, Graph.mem_subjects,
    SortedSet.mem_toList, Graph.mem_subjectsWith]

/-- A node with a target is a root. -/
theorem root_of_target {g : Graph} {id : Term} {target : Target}
    (stated : target ∈ Statements.targets ⟨g, id⟩) : id ∈ roots g := by
  have among (p : String) (o : Term) (value : o ∈ Statements.all ⟨g, id⟩ p)
      (listed : p ∈ ["targetClass", "targetNode", "targetSubjectsOf", "targetObjectsOf"]) :
      id ∈ roots g := mem_roots.mpr (.inr ⟨p, listed, o, Graph.mem_objects.mp value⟩)
  simp only [Statements.targets, List.mem_append, List.mem_map] at stated
  rcases stated with (((⟨o, value, -⟩ | ⟨o, value, -⟩) | ⟨o, value, -⟩) | ⟨o, value, -⟩) | implicit
  · exact among _ o value (by simp)
  · exact among _ o value (by simp)
  · exact among _ o value (by simp)
  · exact among _ o value (by simp)
  · split at implicit
    · rename_i typed
      obtain ⟨-, typed⟩ := Bool.and_eq_true_iff.mp typed
      exact mem_roots.mpr (.inl ⟨"NodeShape", .head _, typed⟩)
    · cases implicit

theorem exists_of_mapM {α β : Type} {f : α → Option β} {xs : List α} {ys : List β}
    (found : xs.mapM f = some ys) {x : α} (member : x ∈ xs) : ∃ y ∈ ys, f x = some y := by
  induction xs generalizing ys with
  | nil => cases member
  | cons first rest ih =>
    rw [List.mapM_cons] at found
    obtain ⟨y, ofFirst, found⟩ := Option.bind_eq_some_iff.mp found
    obtain ⟨others, ofRest, found⟩ := Option.bind_eq_some_iff.mp found
    obtain rfl : y :: others = ys := Option.some.inj found
    rcases List.mem_cons.mp member with rfl | member
    · exact ⟨y, .head _, ofFirst⟩
    · obtain ⟨z, listed, ofX⟩ := ih ofRest member
      exact ⟨z, .tail _ listed, ofX⟩

/-- A node with a target is a shape of the set. -/
theorem exists_shape_of_target {g : Graph} {set : ShapeSet} {id : Term} {target : Target}
    (compiled : ShapeSet.ofGraph g = some set) (stated : target ∈ Statements.targets ⟨g, id⟩) :
    ∃ s ∈ set.shapes, s.id = id := by
  obtain ⟨pairs, listed, found⟩ := Option.bind_eq_some_iff.mp compiled
  obtain rfl := Option.some.inj found
  obtain ⟨pair, kept, made⟩ := exists_of_mapM listed (root_of_target stated)
  rw [Graph.compileShape] at made
  obtain ⟨children, -, made⟩ := Option.bind_eq_some_iff.mp made
  obtain rfl := Option.some.inj made
  refine ⟨_, List.mem_filter.mpr ⟨List.mem_map_of_mem kept, ?_⟩, rfl⟩
  have targeted : (Statements.targets ⟨g, id⟩).isEmpty = false :=
    List.isEmpty_eq_false_iff.mpr (List.ne_nil_of_mem stated)
  change (!(Statements.targets ⟨g, id⟩).isEmpty) = true
  rw [targeted]
  rfl

/-! ### Paths -/

/-- A path of a shape is an IRI or the inverse of one. -/
def Shape.PathNamed (s : Shape) : Prop :=
  ∀ path ∈ s.path, ∃ iri, path = .predicate (.iri iri) ∨ path = .inverse (.iri iri)

theorem path?_named {g : Graph} {t : Term} {path : Path} (found : path? g t = some path) :
    ∃ iri, path = .predicate (.iri iri) ∨ path = .inverse (.iri iri) := by
  unfold path? at found
  split at found
  · rename_i iri
    exact ⟨iri, .inl (Option.some.inj found).symm⟩
  · split at found
    · rename_i iri _
      exact ⟨iri, .inr (Option.some.inj found).symm⟩
    · cases found
  · cases found

theorem ofGraph_pathNamed {g : Graph} {set : ShapeSet} (compiled : ShapeSet.ofGraph g = some set) :
    set.Every Shape.PathNamed := by
  refine ofGraph_every (fun _ => True) (fun _ _ _ _ => trivial) ?_ compiled fun _ _ => trivial
  intro id properties _ _ path found
  obtain ⟨t, _, read⟩ := Option.bind_eq_some_iff.mp found
  exact path?_named read

end RepoAudit.Shacl
