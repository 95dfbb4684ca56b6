import RepoAudit.Proofs.Shacl.Entailment

/-!
# Entailment run again

Both hierarchies are read before anything is added, and types are lifted last. What is added can
therefore extend a hierarchy, or be lifted once more: `entail_again_iff` says exactly when it does.
-/

namespace RepoAudit.Shacl

open Rdf

variable {g : Graph} {ontologies : List Graph}

/-- What a graph entails has nothing to add, although the hierarchies may have grown with it. -/
structure Saturated (g : Graph) (ontologies : List Graph) : Prop where
  statements : ∀ s p q o, ⟨s, p, o⟩ ∈ g →
    Below (entail g ontologies :: ontologies) (rdfs "subPropertyOf") p q →
    Entailed g ontologies ⟨s, q, o⟩
  types : ∀ s c d, Lifted g ontologies ⟨s, .iri (rdf "type"), c⟩ →
    Below (entail g ontologies :: ontologies) (rdfs "subClassOf") c d →
    Entailed g ontologies ⟨s, .iri (rdf "type"), d⟩
  /-- What stands above the property of types holds of the types that come last. -/
  above : ∀ s c d q, Lifted g ontologies ⟨s, .iri (rdf "type"), c⟩ →
    Below (g :: ontologies) (rdfs "subClassOf") c d →
    Below (entail g ontologies :: ontologies) (rdfs "subPropertyOf") (.iri (rdf "type")) q →
    Entailed g ontologies ⟨s, q, d⟩

theorem entailed_of_mem {t : Triple} (held : t ∈ g) : Entailed g ontologies t :=
  .inl (.inl held)

/-! ### Hierarchies only grow -/

theorem Below.grown {predicate : String} {x y : Term} (below : Below (g :: ontologies) predicate x y) :
    Below (entail g ontologies :: ontologies) predicate x y := by
  refine ⟨Relation.TransGen.mono (fun a b stated => ?_) _ _ below.1, below.2⟩
  obtain ⟨source, member, held⟩ := stated
  rcases List.mem_cons.mp member with rfl | ontology
  · exact ⟨_, .head _, mem_entail.mpr (entailed_of_mem held)⟩
  · exact ⟨source, .tail _ ontology, held⟩

theorem Below.trans_or_eq {graphs : List Graph} {predicate : String} {x y z : Term}
    (below : Below graphs predicate x y) (below' : Below graphs predicate y z) :
    x = z ∨ Below graphs predicate x z := by
  by_cases same : x = z
  · exact .inl same
  · exact .inr ⟨below.1.trans below'.1, same⟩

/-! ### Running again -/

theorem Saturated.lifted (saturated : Saturated g ontologies) {t : Triple}
    (again : Lifted (entail g ontologies) ontologies t) : Entailed g ontologies t := by
  obtain ⟨s, q, o⟩ := t
  rcases again with held | ⟨p, held, below⟩
  · exact mem_entail.mp held
  rcases mem_entail.mp held with (stated | ⟨r, stated, below'⟩) | ⟨type, c, lifted, below'⟩
  · exact saturated.statements s p q o stated below
  · -- the statement was lifted from `r` to `p`, and is now lifted on to `q`
    rcases below'.grown.trans_or_eq below with same | below''
    · obtain rfl : r = q := same
      exact entailed_of_mem stated
    · exact saturated.statements s r q o stated below''
  · obtain rfl : p = .iri (rdf "type") := type
    exact saturated.above s c o q lifted below' below

theorem Saturated.entailed (saturated : Saturated g ontologies) {t : Triple}
    (again : Entailed (entail g ontologies) ontologies t) : Entailed g ontologies t := by
  obtain ⟨s, p, d⟩ := t
  rcases again with lifted | ⟨type, c, lifted, below⟩
  · exact saturated.lifted lifted
  obtain rfl : p = .iri (rdf "type") := type
  rcases saturated.lifted lifted with stated | ⟨-, b, stated, below'⟩
  · exact saturated.types s c d stated below
  · rcases below'.grown.trans_or_eq below with same | below''
    · obtain rfl : b = d := same
      exact .inl stated
    · exact saturated.types s b d stated below''

theorem saturated_iff : Saturated g ontologies ↔
    ∀ t, Entailed (entail g ontologies) ontologies t → t ∈ entail g ontologies := by
  constructor
  · intro saturated t again
    exact mem_entail.mpr (saturated.entailed again)
  · intro closed
    have kept {t : Triple} (again : Entailed (entail g ontologies) ontologies t) :
        Entailed g ontologies t := mem_entail.mp (closed t again)
    constructor
    · intro s p q o stated below
      exact kept (.inl (.inr ⟨p, mem_entail.mpr (entailed_of_mem stated), below⟩))
    · intro s c d lifted below
      exact kept (.inr ⟨rfl, c, .inl (mem_entail.mpr (.inl lifted)), below⟩)
    · intro s c d q lifted below below'
      have typed : Entailed g ontologies ⟨s, .iri (rdf "type"), d⟩ := .inr ⟨rfl, c, lifted, below⟩
      exact kept (.inl (.inr ⟨_, mem_entail.mpr typed, below'⟩))

/-- A graph that does not grow had all that is inserted. -/
theorem size_insertMany_le {ts : List Triple} :
    (g.insertMany ts).size ≤ g.size ↔ ∀ t, t ∈ g.insertMany ts → t ∈ g := by
  have grown := size_insertMany ts g
  constructor
  · intro small t member
    have bounded : (g.size : ℕ∞) + {t | t ∈ g.insertMany ts ∧ t ∉ g}.encard ≤ g.size + 0 := by
      rw [← grown, add_zero]
      exact Nat.cast_le.mpr small
    have none := Set.encard_eq_zero.mp
      (nonpos_iff_eq_zero.mp (ENat.addLECancellable_natCast g.size bounded))
    by_contra new
    exact Set.eq_empty_iff_forall_notMem.mp none t ⟨member, new⟩
  · intro known
    have none : {t | t ∈ g.insertMany ts ∧ t ∉ g} = ∅ := by
      ext t
      simpa using known t
    rw [none, Set.encard_empty, add_zero] at grown
    exact (Nat.cast_injective grown).le

theorem entailCounted_eq_zero : (entailCounted g ontologies).2 = 0 ↔
    ∀ t, Entailed g ontologies t → t ∈ g := by
  obtain ⟨ts, whole⟩ : ∃ ts, entail g ontologies = g.insertMany ts :=
    ⟨_, (List.foldl_append ..).symm⟩
  simp only [← mem_entail, entailCounted, whole, Nat.sub_eq_zero_iff_le]
  exact size_insertMany_le

/-- Completing a completed graph changes nothing exactly if what the first run added neither extends
a hierarchy nor is lifted by one, except to what holds anyway. -/
theorem entail_again_iff (g : Graph) (ontologies : List Graph) :
    ((∀ t, t ∈ entail (entail g ontologies) ontologies ↔ t ∈ entail g ontologies) ∧
      (entailCounted (entail g ontologies) ontologies).2 = 0) ↔ Saturated g ontologies := by
  rw [saturated_iff, entailCounted_eq_zero]
  refine and_iff_right_of_imp fun closed t => ?_
  rw [mem_entail]
  exact ⟨closed t, entailed_of_mem⟩

/-! ### Hierarchies that nothing is added to -/

/-- No statement is lifted to a property that states a hierarchy, and no type to another property. -/
structure Unmixed (graphs : List Graph) : Prop where
  properties : ∀ p, ¬ Below graphs (rdfs "subPropertyOf") p (.iri (rdfs "subPropertyOf"))
  classes : ∀ p, ¬ Below graphs (rdfs "subPropertyOf") p (.iri (rdfs "subClassOf"))
  types : ∀ q, ¬ Below graphs (rdfs "subPropertyOf") (.iri (rdf "type")) q

/-- A hierarchy whose property stands above no other is not extended. -/
theorem below_entail_iff {name : String} {x y : Term}
    (lowest : ∀ p, ¬ Below (g :: ontologies) (rdfs "subPropertyOf") p (.iri (rdfs name)))
    (notType : rdfs name ≠ rdf "type") :
    Below (entail g ontologies :: ontologies) (rdfs name) x y ↔
      Below (g :: ontologies) (rdfs name) x y := by
  refine ⟨fun ⟨path, other⟩ => ⟨Relation.TransGen.mono (fun a b stated => ?_) _ _ path, other⟩,
    Below.grown⟩
  obtain ⟨source, member, held⟩ := stated
  rcases List.mem_cons.mp member with rfl | ontology
  · rcases mem_entail.mp held with (stated | ⟨p, -, below⟩) | ⟨type, -⟩
    · exact ⟨g, .head _, stated⟩
    · exact absurd below (lowest p)
    · exact absurd (Term.iri.inj type) notType
  · exact ⟨source, .tail _ ontology, held⟩

theorem rdfs_ne_type (name : String) : rdfs name ≠ rdf "type" := by
  intro same
  have chars := congrArg String.toList same
  simp [rdfs, rdf, Namespace.rdfs, Namespace.rdf] at chars

/-- Where the hierarchies are about other properties than these, one run is enough. -/
theorem saturated_of_unmixed (unmixed : Unmixed (g :: ontologies)) : Saturated g ontologies := by
  constructor
  · intro s p q o stated below
    rw [below_entail_iff unmixed.properties (rdfs_ne_type _)] at below
    exact .inl (.inr ⟨p, stated, below⟩)
  · intro s c d lifted below
    rw [below_entail_iff unmixed.classes (rdfs_ne_type _)] at below
    exact .inr ⟨rfl, c, lifted, below⟩
  · intro s c d q _ _ below
    rw [below_entail_iff unmixed.properties (rdfs_ne_type _)] at below
    exact absurd below (unmixed.types q)

/-! ### A hierarchy that is added to -/

def cat : Term := .iri "urn:ex:Cat"

def pet : Term := .iri "urn:ex:Pet"

def tom : Term := .iri "urn:ex:tom"

def isA : Term := .iri "urn:ex:isA"

/-- Cats are pets by a property of its own, below the one that states the hierarchy of classes. -/
def petTriples : List Triple :=
  [⟨isA, .iri (rdfs "subPropertyOf"), .iri (rdfs "subClassOf")⟩, ⟨cat, isA, pet⟩,
   ⟨tom, .iri (rdf "type"), cat⟩]

def pets : Graph := (∅ : Graph).insertMany petTriples

theorem mem_pets {t : Triple} : t ∈ pets ↔ t ∈ petTriples := by
  rw [pets, Graph.mem_insertMany, or_iff_left (Graph.not_mem_empty t)]

theorem tom_not_pet : ⟨tom, .iri (rdf "type"), pet⟩ ∉ entail pets [] := by
  have unstated {p o : Term} (held : ⟨tom, p, o⟩ ∈ pets) : o = cat := by
    have listed := mem_pets.mp held
    simp only [petTriples, List.mem_cons, Triple.mk.injEq, List.not_mem_nil, or_false] at listed
    rcases listed with ⟨other, -⟩ | ⟨other, -⟩ | ⟨-, -, same⟩
    · exact absurd other (by decide)
    · exact absurd other (by decide)
    · exact same
  have classless {a b : Term} : ¬ Below [pets] (rdfs "subClassOf") a b := by
    rintro ⟨path, -⟩
    obtain ⟨c, ⟨g, member, held⟩, -⟩ := Relation.TransGen.head'_iff.mp path
    obtain rfl := List.mem_singleton.mp member
    have listed := mem_pets.mp held
    simp only [petTriples, List.mem_cons, Triple.mk.injEq, List.not_mem_nil, or_false] at listed
    rcases listed with ⟨-, other, -⟩ | ⟨-, other, -⟩ | ⟨-, other, -⟩ <;>
      exact absurd other (by decide)
  intro held
  rcases mem_entail.mp held with (stated | ⟨p, stated, -⟩) | ⟨-, c, -, below⟩
  · exact absurd (unstated stated) (by decide)
  · exact absurd (unstated stated) (by decide)
  · exact classless below

/-- The first run adds that cats are pets, and only the second that Tom is one. -/
theorem entail_pets_again : (entailCounted (entail pets []) []).2 ≠ 0 := by
  intro none
  have below {a b : Term} {predicate : String} {g : Graph} (stated : ⟨a, .iri predicate, b⟩ ∈ g)
      (other : a ≠ b) : Below [g] predicate a b :=
    ⟨.single ⟨g, .head _, stated⟩, other⟩
  have subclass : ⟨cat, .iri (rdfs "subClassOf"), pet⟩ ∈ entail pets [] := by
    have stated : ⟨cat, isA, pet⟩ ∈ pets := mem_pets.mpr (by simp [petTriples])
    have declared : ⟨isA, .iri (rdfs "subPropertyOf"), .iri (rdfs "subClassOf")⟩ ∈ pets :=
      mem_pets.mpr (by simp [petTriples])
    exact mem_entail.mpr (.inl (.inr ⟨isA, stated, below declared (by decide)⟩))
  have typed : ⟨tom, .iri (rdf "type"), cat⟩ ∈ entail pets [] :=
    mem_entail.mpr (entailed_of_mem (mem_pets.mpr (by simp [petTriples])))
  exact tom_not_pet (entailCounted_eq_zero.mp none ⟨tom, .iri (rdf "type"), pet⟩
    (.inr ⟨rfl, cat, .inl typed, below subclass (by decide)⟩))

end RepoAudit.Shacl
