import RepoAudit.Proofs.Shacl.Instances
import RepoAudit.Proofs.Shacl.Nesting
import RepoAudit.Shacl.Report

/-!
# What a validation looks at

Without inference a validation reads no triples but types, the hierarchy of classes and those with
the predicates that its shapes name. Graphs that agree on these get the same report.
-/

namespace RepoAudit.Shacl

open Rdf

/-- Two graphs hold the same triples with a predicate. -/
def AgreeOn (g h : Graph) (p : Term) : Prop := ∀ s o, ⟨s, p, o⟩ ∈ g ↔ ⟨s, p, o⟩ ∈ h

/-- The class that a target names. -/
def Target.class? : Target → Option Term
  | .ofClass c => some c
  | _ => none

/-- The predicate that a target names. -/
def Target.predicate? : Target → Option Term
  | .subjectsOf p => some p
  | .objectsOf p => some p
  | _ => none

/-- The class that a constraint names. -/
def Constraint.class? : Constraint → Option Term
  | .ofClass c => some c
  | _ => none

/-- The predicate that a path leads along, forward or backward. -/
def Path.along : Path → Term
  | .predicate p => p
  | .inverse p => p

/-- The classes that a shape itself names. -/
def Shape.classes (s : Shape) : List Term :=
  s.targets.filterMap Target.class? ++ s.constraints.filterMap Constraint.class?

/-- The predicates that a shape itself names. -/
def Shape.predicates (s : Shape) : List Term :=
  s.targets.filterMap Target.predicate? ++ (s.path.map Path.along).toList

/-- Two graphs have the same instances of the classes and the same triples with the predicates that
a shape itself names. -/
structure Shape.Agree (s : Shape) (g h : Graph) : Prop where
  classes : ∀ c ∈ s.classes, ∀ node, InstanceOf g node c ↔ InstanceOf h node c
  predicates : ∀ p ∈ s.predicates, AgreeOn g h p

/-- Two graphs hold the same types, the same statements of the hierarchy of classes and the same
triples with the predicates that the shapes of a set name, attached ones included. -/
structure ShapeSet.Agree (set : ShapeSet) (g h : Graph) : Prop where
  types : AgreeOn g h (.iri (rdf "type"))
  hierarchy : AgreeOn g h (.iri (rdfs "subClassOf"))
  shapes : set.Every fun s => ∀ p ∈ s.predicates, AgreeOn g h p

variable {g h : Graph} {p : Term}

/-! ### Answers of graphs that agree -/

theorem AgreeOn.objects (agree : AgreeOn g h p) (s : Term) : g.objects s p = h.objects s p :=
  congrArg SortedSet.toList (SortedSet.ext_mem fun o =>
    Graph.mem_objects.trans ((agree s o).trans Graph.mem_objects.symm))

theorem AgreeOn.subjects (agree : AgreeOn g h p) (o : Term) : g.subjects p o = h.subjects p o :=
  congrArg SortedSet.toList (SortedSet.ext_mem fun s =>
    Graph.mem_subjects.trans ((agree s o).trans Graph.mem_subjects.symm))

theorem AgreeOn.subjectsWith (agree : AgreeOn g h p) : g.subjectsWith p = h.subjectsWith p :=
  SortedSet.ext_mem fun s => by
    simp only [Graph.mem_subjectsWith, agree s]

theorem AgreeOn.objectsWith (agree : AgreeOn g h p) : g.objectsWith p = h.objectsWith p :=
  SortedSet.ext_mem fun o => by
    simp only [Graph.mem_objectsWith, fun s => agree s o]

theorem AgreeOn.states {name : String} (agree : AgreeOn g h (.iri name)) :
    States [g] name = States [h] name := by
  funext low high
  rw [states_singleton, states_singleton, agree]

theorem instanceOf_agree (types : AgreeOn g h (.iri (rdf "type")))
    (hierarchy : AgreeOn g h (.iri (rdfs "subClassOf"))) {node c : Term} :
    InstanceOf g node c ↔ InstanceOf h node c := by
  rw [InstanceOf, InstanceOf, types.states, hierarchy.states]

theorem AgreeOn.values {path : Path} (agree : AgreeOn g h path.along) (focus : Term) :
    path.values g focus = path.values h focus := by
  cases path with
  | predicate p => exact agree.objects focus
  | inverse p => exact agree.subjects focus

/-! ### Shapes -/

namespace Shape.Agree

variable {s : Shape} (agree : s.Agree g h)
include agree

theorem nodes {target : Target} (stated : target ∈ s.targets) : target.nodes g = target.nodes h := by
  have named {p : Term} (names : target.predicate? = some p) : AgreeOn g h p :=
    agree.predicates p (List.mem_append_left _ (List.mem_filterMap.mpr ⟨target, stated, names⟩))
  cases target with
  | ofClass c =>
    have instances := agree.classes c
      (List.mem_append_left _ (List.mem_filterMap.mpr ⟨_, stated, rfl⟩))
    refine congrArg SortedSet.toList (SortedSet.ext_mem fun node => ?_)
    rw [mem_instancesOf, mem_instancesOf, instances]
  | node n => rfl
  | subjectsOf p => exact congrArg SortedSet.toList (named rfl).subjectsWith
  | objectsOf p => exact congrArg SortedSet.toList (named rfl).objectsWith

theorem focusNodes : focusNodes g s = focusNodes h s :=
  congrArg SortedSet.ofList (List.flatMap_congr fun _ stated => agree.nodes stated)

theorem values (focus : Term) : s.values g focus = s.values h focus := by
  unfold Shape.values
  cases path : s.path with
  | none => rfl
  | some found =>
    refine (agree.predicates found.along (List.mem_append_right _ ?_)).values focus
    simp [path]

theorem constraint_missed {c : Constraint} (stated : c ∈ s.constraints) (values : List Term) :
    c.missed g values = c.missed h values := by
  cases c with
  | ofClass k =>
    have instances := agree.classes k
      (List.mem_append_right _ (List.mem_filterMap.mpr ⟨_, stated, rfl⟩))
    have verdict (node : Term) : isInstance g node k = isInstance h node k := by
      rw [Bool.eq_iff_iff, isInstance_iff, isInstance_iff, instances]
    simp only [Constraint.missed, Constraint.admits, verdict]
  | _ => rfl

theorem missed (focus : Term) : s.missed g focus = s.missed h focus := by
  refine List.flatMap_congr fun c stated => ?_
  rw [agree.values, agree.constraint_missed stated]

end Shape.Agree

variable {set : ShapeSet}

/-- Shapes for which two graphs agree find the same in both. -/
theorem findings_agree (agree : set.Every (·.Agree g h)) : findings g set = findings h set := by
  have checks : failedChecks g set = failedChecks h set := by
    refine List.flatMap_congr fun top kept => ?_
    have every := agree top (List.mem_filter.mp kept).1
    rw [every.here.focusNodes]
    refine List.flatMap_congr fun focus _ => List.flatMap_congr fun s active => ?_
    exact (every.of_active s active).missed focus
  rw [findings_eq, findings_eq, checks]

theorem ShapeSet.Agree.every (agree : set.Agree g h) : set.Every (·.Agree g h) :=
  fun top listed => (agree.shapes top listed).imp fun _ named =>
    ⟨fun _ _ _ => instanceOf_agree agree.types agree.hierarchy, named⟩

/-- Graphs that agree on what a set of shapes looks at get the same report. -/
theorem report_agree (agree : set.Agree g h) :
    reportOf (findings g set) = reportOf (findings h set) := by
  rw [findings_agree agree.every]

/-! ### Triples that do not matter -/

theorem agreeOn_insert {t : Triple} (apart : t.predicate ≠ p) : AgreeOn g (g.insert t) p := by
  intro s o
  rw [Graph.mem_insert]
  refine ⟨.inr, fun either => either.resolve_left ?_⟩
  rintro rfl
  exact apart rfl

/-- A triple with a predicate that no shape names is not looked at. -/
theorem agree_insert {t : Triple} (type : t.predicate ≠ .iri (rdf "type"))
    (subclass : t.predicate ≠ .iri (rdfs "subClassOf"))
    (apart : set.Every fun s => t.predicate ∉ s.predicates) : set.Agree g (g.insert t) where
  types := agreeOn_insert type
  hierarchy := agreeOn_insert subclass
  shapes top listed := (apart top listed).imp fun _ unnamed _ named =>
    agreeOn_insert fun same => unnamed (same ▸ named)

/-- How large the one file of a project is. -/
def fileSize : Triple := ⟨.iri "ex:main", .iri "ex:size", .integer 3⟩

theorem fileSize_unnamed :
    ShapeSet.Every (fun s => fileSize.predicate ∉ s.predicates) { shapes := [project] } := by
  intro top listed
  obtain rfl := List.mem_singleton.mp listed
  refine .intro (by decide) fun child attached => ?_
  obtain rfl : child = files := List.mem_singleton.mp attached
  refine .intro (by decide) fun child attached => ?_
  obtain rfl : child = owners := List.mem_singleton.mp attached
  exact .intro (by decide) fun child attached => by cases attached

theorem report_with_fileSize : fileSize ∉ oneFile ∧
    ShapeSet.Agree { shapes := [project] } oneFile (oneFile.insert fileSize) ∧
    reportOf (findings oneFile { shapes := [project] }) =
      reportOf (findings (oneFile.insert fileSize) { shapes := [project] }) := by
  have agree : ShapeSet.Agree { shapes := [project] } oneFile (oneFile.insert fileSize) :=
    agree_insert (by decide) (by decide) fileSize_unnamed
  refine ⟨fun held => ?_, agree, report_agree agree⟩
  rw [oneFile, Graph.mem_insert, or_iff_left (Graph.not_mem_empty _)] at held
  exact absurd held (by decide)

end RepoAudit.Shacl
