import RepoAudit.Proofs.Shacl.Saturation
import RepoAudit.Shacl.Validate

/-!
# Instances of a class

Whether a node is an instance is found from either end, by a search down from the class or by one up
from the types of the node. Both find the same nodes, and so they do once a graph has been completed.
-/

namespace RepoAudit.Shacl

open Rdf

/-- Whether a type of a node is a class or a class below it. -/
def InstanceOf (g : Graph) (node c : Term) : Prop :=
  ∃ type, States [g] (rdf "type") node type ∧
    Relation.ReflTransGen (States [g] (rdfs "subClassOf")) type c

variable {g : Graph} {node c : Term}

theorem states_singleton {predicate : String} {low high : Term} :
    States [g] predicate low high ↔ ⟨low, .iri predicate, high⟩ ∈ g := by
  simp [States]

/-! ### Two searches -/

theorem isInstance_iff : isInstance g node c = true ↔ InstanceOf g node c := by
  have closed (low high : Term) (edge : high ∈ g.objects low (.iri (rdfs "subClassOf"))) :
      high ∈ (g.objectsWith (.iri (rdfs "subClassOf"))).toList :=
    SortedSet.mem_toList.mpr (Graph.mem_objectsWith.mpr ⟨low, Graph.mem_objects.mp edge⟩)
  rw [isInstance, List.contains_iff_mem, mem_reachable closed]
  simp only [Graph.mem_objects, ← states_singleton]
  rfl

theorem mem_instancesOf : node ∈ instancesOf g c ↔ InstanceOf g node c := by
  have closed (high low : Term) (edge : low ∈ g.subjects (.iri (rdfs "subClassOf")) high) :
      low ∈ (g.subjectsWith (.iri (rdfs "subClassOf"))).toList :=
    SortedSet.mem_toList.mpr (Graph.mem_subjectsWith.mpr ⟨high, Graph.mem_subjects.mp edge⟩)
  have below (type : Term) : type ∈ subclasses g c ↔
      Relation.ReflTransGen (States [g] (rdfs "subClassOf")) type c := by
    rw [subclasses, mem_reachable closed, ← Relation.reflTransGen_swap]
    simp only [List.mem_singleton, exists_eq_left, Graph.mem_subjects, ← states_singleton]
  rw [instancesOf, SortedSet.mem_ofList, List.mem_flatMap]
  simp only [below, Graph.mem_subjects, ← states_singleton]
  exact exists_congr fun type => and_comm

/-- The search down from a class and the search up from a node agree, on cycles too. -/
theorem mem_instancesOf_iff_isInstance (g : Graph) (node c : Term) :
    node ∈ instancesOf g c ↔ isInstance g node c = true :=
  mem_instancesOf.trans isInstance_iff.symm

/-! ### Instances in a completed graph -/

/-- No property is stated to be below another. -/
def FlatProperties (g : Graph) : Prop :=
  ∀ low high, ⟨low, .iri (rdfs "subPropertyOf"), high⟩ ∉ g

theorem lifted_of_flat (flat : FlatProperties g) {t : Triple} : Lifted g [] t ↔ t ∈ g := by
  refine or_iff_left ?_
  rintro ⟨p, -, path, -⟩
  obtain ⟨q, stated, -⟩ := Relation.TransGen.head'_iff.mp path
  exact flat p q (states_singleton.mp stated)

/-- What is added are types, so the hierarchy of classes stays as it is. -/
theorem states_subClassOf_entail (flat : FlatProperties g) :
    States [entail g []] (rdfs "subClassOf") = States [g] (rdfs "subClassOf") := by
  funext low high
  rw [states_singleton, states_singleton, mem_entail, Entailed, lifted_of_flat flat]
  refine propext (or_iff_left ?_)
  rintro ⟨type, -⟩
  exact rdfs_ne_type _ (Term.iri.inj type)

theorem instanceOf_entail (flat : FlatProperties g) :
    InstanceOf (entail g []) node c ↔ InstanceOf g node c := by
  unfold InstanceOf
  rw [states_subClassOf_entail flat]
  constructor
  · rintro ⟨type, typed, path⟩
    have entailed := mem_entail.mp (states_singleton.mp typed)
    simp only [Entailed, lifted_of_flat flat] at entailed
    rcases entailed with stated | ⟨-, low, stated, below⟩
    · exact ⟨type, states_singleton.mpr stated, path⟩
    · -- the type was added for a class below it, from which the path starts now
      exact ⟨low, states_singleton.mpr stated, below.1.to_reflTransGen.trans path⟩
  · rintro ⟨type, typed, path⟩
    have kept : Entailed g [] ⟨node, .iri (rdf "type"), type⟩ :=
      entailed_of_mem (states_singleton.mp typed)
    exact ⟨type, states_singleton.mpr (mem_entail.mpr kept), path⟩

/-- Completing a graph first selects the same nodes for a class and fails the same values for it, as
long as no property is below another. -/
theorem instances_entail (flat : FlatProperties g) (c : Term) :
    (∀ node, (node ∈ instancesOf (entail g []) c ↔ node ∈ instancesOf g c) ∧
      isInstance (entail g []) node c = isInstance g node c) ∧
    (Target.ofClass c).nodes (entail g []) = (Target.ofClass c).nodes g ∧
    ∀ values, (Constraint.ofClass c).failures (entail g []) values =
      (Constraint.ofClass c).failures g values := by
  have members (node : Term) : node ∈ instancesOf (entail g []) c ↔ node ∈ instancesOf g c := by
    rw [mem_instancesOf, mem_instancesOf, instanceOf_entail flat]
  have verdict (node : Term) : isInstance (entail g []) node c = isInstance g node c := by
    rw [Bool.eq_iff_iff, isInstance_iff, isInstance_iff, instanceOf_entail flat]
  refine ⟨fun node => ⟨members node, verdict node⟩, ?_, fun values => ?_⟩
  · exact congrArg SortedSet.toList (SortedSet.ext_mem members)
  · simp only [Constraint.failures, Constraint.admits, verdict]

/-- Cats and pets are below each other. -/
def catsArePets : Graph :=
  (∅ : Graph).insertMany
    [⟨cat, .iri (rdfs "subClassOf"), pet⟩, ⟨pet, .iri (rdfs "subClassOf"), cat⟩,
     ⟨tom, .iri (rdf "type"), cat⟩]

theorem instances_entail_catsArePets : FlatProperties catsArePets ∧
    tom ∈ instancesOf catsArePets pet ∧ tom ∈ instancesOf (entail catsArePets []) pet := by
  have flat : FlatProperties catsArePets := by
    intro low high stated
    simp only [catsArePets, Graph.mem_insertMany, List.mem_cons, Triple.mk.injEq, List.not_mem_nil,
      Graph.not_mem_empty, or_false] at stated
    rcases stated with ⟨-, other, -⟩ | ⟨-, other, -⟩ | ⟨-, other, -⟩ <;>
      exact absurd other (by decide)
  have held : tom ∈ instancesOf catsArePets pet := by
    have typed : ⟨tom, .iri (rdf "type"), cat⟩ ∈ catsArePets := by
      simp [catsArePets, Graph.mem_insertMany]
    have below : ⟨cat, .iri (rdfs "subClassOf"), pet⟩ ∈ catsArePets := by
      simp [catsArePets, Graph.mem_insertMany]
    exact mem_instancesOf.mpr
      ⟨cat, states_singleton.mpr typed, .single (states_singleton.mpr below)⟩
  exact ⟨flat, held, ((instances_entail flat pet).1 tom).1.mpr held⟩

end RepoAudit.Shacl
