import Mathlib.Data.Set.Card
import RepoAudit.Proofs.Ordered.Gathering
import RepoAudit.Proofs.Rdf.Reach
import RepoAudit.Shacl.Entailment

/-!
# What a graph entails

The hierarchies that graphs state are closed along paths of any length, cycles included. A graph is
completed in two steps: statements are lifted along the hierarchy of properties, and then the types
that hold by now are lifted along the hierarchy of classes.
-/

namespace RepoAudit.Shacl

open Rdf

/-! ### Hierarchies -/

/-- Whether one of the graphs states that `low` is directly below `high`. -/
def States (graphs : List Graph) (predicate : String) (low high : Term) : Prop :=
  ∃ g ∈ graphs, ⟨low, .iri predicate, high⟩ ∈ g

/-- Whether one or more statements lead from `low` up to `high`, which is another term. -/
def Below (graphs : List Graph) (predicate : String) (low high : Term) : Prop :=
  Relation.TransGen (States graphs predicate) low high ∧ low ≠ high

/-- Steps from a term to itself lead nowhere else. -/
theorem transGen_ne_iff {α : Type} {r : α → α → Prop} {a b : α} :
    Relation.TransGen (fun x y => r x y ∧ x ≠ y) a b ∧ a ≠ b ↔ Relation.TransGen r a b ∧ a ≠ b := by
  refine and_congr_left fun other => ⟨Relation.TransGen.mono (fun _ _ => And.left) _ _, fun path => ?_⟩
  have walked {x : α} (path : Relation.TransGen r a x) :
      Relation.ReflTransGen (fun x y => r x y ∧ x ≠ y) a x := by
    induction path with
    | @single y edge =>
      by_cases same : a = y
      · exact same ▸ .refl
      · exact .single ⟨edge, same⟩
    | @tail y z _ edge ih =>
      by_cases same : y = z
      · exact same ▸ ih
      · exact ih.tail ⟨edge, same⟩
  exact (Relation.reflTransGen_iff_eq_or_transGen.mp (walked path)).resolve_left other.symm

namespace Hierarchy

variable {h : Hierarchy} {t x : Term}

theorem mem_parents : x ∈ h.parents t ↔ ∃ s, h.get? t = some s ∧ x ∈ s := by
  rw [parents, SortedSet.mem_toList]
  cases h.get? t <;> simp

theorem mem_above :
    x ∈ h.above t ↔ Relation.TransGen (fun a b => b ∈ h.parents a) t x ∧ t ≠ x := by
  have closed (a b : Term) (edge : b ∈ h.parents a) :
      b ∈ h.values.flatMap (·.toList) := by
    obtain ⟨s, stored, member⟩ := mem_parents.mp edge
    exact List.mem_flatMap.mpr ⟨s, SortedMap.mem_values.mpr ⟨a, stored⟩, member⟩
  rw [above, SortedSet.mem_erase, SortedSet.mem_ofList, mem_reachable closed,
    Relation.TransGen.head'_iff, ne_comm]

theorem mem_parents_closure : x ∈ h.closure.parents t ↔ x ∈ h.above t := by
  rw [mem_parents, closure, SortedMap.get?_mapValues]
  cases stored : h.get? t with
  | some s => simp
  | none =>
    refine iff_of_false (by simp) fun member => ?_
    obtain ⟨_, edge, -⟩ := Relation.TransGen.head'_iff.mp (mem_above.mp member).1
    obtain ⟨s, held, -⟩ := mem_parents.mp edge
    rw [stored] at held
    cases held

/-- Edges between different terms are gathered one after another. -/
theorem mem_parents_gathered (edges : List (Term × Term)) (h : Hierarchy) :
    x ∈ parents (edges.foldl (fun h (low, high) =>
      if low = high then h else h.alter low fun s => some ((s.getD ∅).insert high)) h) t ↔
        ((t, x) ∈ edges ∧ t ≠ x) ∨ x ∈ h.parents t := by
  induction edges generalizing h with
  | nil => simp
  | cons edge rest ih =>
    obtain ⟨low, high⟩ := edge
    have step : x ∈ parents (if low = high then h
        else h.alter low fun s => some ((s.getD ∅).insert high)) t ↔
          ((t = low ∧ x = high) ∧ t ≠ x) ∨ x ∈ h.parents t := by
      split
      · grind
      · rw [parents, SortedSet.mem_toList, SortedMap.get?_alter]
        split
        · rename_i other same
          subst same
          rw [Option.getD_some, SortedSet.mem_insert, parents, SortedSet.mem_toList]
          grind
        · rename_i elsewhere
          simp [parents, elsewhere]
    rw [List.foldl_cons, ih, step, List.mem_cons, Prod.mk.injEq]
    tauto

theorem mem_parents_ofGraphs {graphs : List Graph} {predicate : String} :
    x ∈ (ofGraphs graphs predicate).parents t ↔ States graphs predicate t x ∧ t ≠ x := by
  have edges : (t, x) ∈ graphs.flatMap (fun g => (g.subjectsWith (.iri predicate)).toList.flatMap
      fun low => (g.objects low (.iri predicate)).map fun high => (low, high)) ↔
        States graphs predicate t x := by
    simp only [List.mem_flatMap, List.mem_map, SortedSet.mem_toList, Graph.mem_subjectsWith,
      Graph.mem_objects, Prod.mk.injEq]
    constructor
    · rintro ⟨g, member, _, -, _, held, rfl, rfl⟩
      exact ⟨g, member, held⟩
    · rintro ⟨g, member, held⟩
      exact ⟨g, member, t, ⟨x, held⟩, x, held, rfl, rfl⟩
  rw [ofGraphs, mem_parents_gathered, edges, mem_parents, SortedMap.get?_empty]
  simp

/-- A closed hierarchy has above a term what one or more statements lead up to. -/
theorem mem_parents_closed {graphs : List Graph} {predicate : String} :
    x ∈ (ofGraphs graphs predicate).closure.parents t ↔ Below graphs predicate t x := by
  rw [mem_parents_closure, mem_above]
  simp only [mem_parents_ofGraphs]
  exact transGen_ne_iff

end Hierarchy

/-! ### Entailment -/

section Entailment

variable {g : Graph} {ontologies : List Graph} {t : Triple}

/-- What holds once statements are lifted along the hierarchy of properties. -/
def Lifted (g : Graph) (ontologies : List Graph) (t : Triple) : Prop :=
  t ∈ g ∨ ∃ p, ⟨t.subject, p, t.object⟩ ∈ g ∧
    Below (g :: ontologies) (rdfs "subPropertyOf") p t.predicate

/-- What holds once types are lifted too, those among them that come from a property. -/
def Entailed (g : Graph) (ontologies : List Graph) (t : Triple) : Prop :=
  Lifted g ontologies t ∨ t.predicate = .iri (rdf "type") ∧ ∃ c,
    Lifted g ontologies ⟨t.subject, .iri (rdf "type"), c⟩ ∧
      Below (g :: ontologies) (rdfs "subClassOf") c t.object

theorem mem_liftedStatements {properties : Hierarchy} : t ∈ liftedStatements properties g ↔
    ∃ p, ⟨t.subject, p, t.object⟩ ∈ g ∧ t.predicate ∈ properties.parents p := by
  simp only [liftedStatements, List.mem_flatMap, List.mem_map, Graph.mem_triples]
  constructor
  · rintro ⟨u, held, p, above, rfl⟩
    exact ⟨u.predicate, held, above⟩
  · rintro ⟨p, held, above⟩
    exact ⟨_, held, t.predicate, above, rfl⟩

theorem mem_liftedTypes {classes : Hierarchy} : t ∈ liftedTypes classes g ↔
    t.predicate = .iri (rdf "type") ∧ ∃ c, ⟨t.subject, .iri (rdf "type"), c⟩ ∈ g ∧
      t.object ∈ classes.parents c := by
  simp only [liftedTypes, List.mem_flatMap, List.mem_map, List.mem_filter, Graph.mem_triples,
    decide_eq_true_eq]
  constructor
  · rintro ⟨⟨s, p, c⟩, ⟨held, rfl⟩, d, above, rfl⟩
    exact ⟨rfl, c, held, above⟩
  · rintro ⟨type, c, held, above⟩
    exact ⟨_, ⟨held, rfl⟩, t.object, above, by rw [← type]⟩

theorem mem_entail : t ∈ entail g ontologies ↔ Entailed g ontologies t := by
  have lifted (u : Triple) : u ∈ g.insertMany (liftedStatements
      (Hierarchy.ofGraphs (g :: ontologies) (rdfs "subPropertyOf")).closure g) ↔
        Lifted g ontologies u := by
    rw [Graph.mem_insertMany, mem_liftedStatements, or_comm]
    simp only [Hierarchy.mem_parents_closed]
    rfl
  rw [entail, Graph.mem_insertMany, mem_liftedTypes, or_comm]
  simp only [lifted, Hierarchy.mem_parents_closed]
  rfl

/-- Graphs with the same triples entail the same. -/
theorem mem_entail_congr {h : Graph} (same : ∀ t, t ∈ g ↔ t ∈ h) :
    t ∈ entail g ontologies ↔ t ∈ entail h ontologies := by
  have states (predicate : String) :
      States (g :: ontologies) predicate = States (h :: ontologies) predicate := by
    ext low high
    simp [States, same]
  have below (predicate : String) :
      Below (g :: ontologies) predicate = Below (h :: ontologies) predicate := by
    ext low high
    rw [Below, Below, states]
  simp only [mem_entail, Entailed, Lifted, same, below]

/-! ### What is new -/

/-- A graph grows by the triples that it did not hold. -/
theorem size_insertMany (ts : List Triple) (g : Graph) :
    ((g.insertMany ts).size : ℕ∞) = g.size + {t | t ∈ g.insertMany ts ∧ t ∉ g}.encard := by
  induction ts generalizing g with
  | nil =>
    have none : {t | t ∈ g ∧ t ∉ g} = ∅ := by simp
    rw [Graph.insertMany, List.foldl_nil, none, Set.encard_empty, add_zero]
  | cons first rest ih =>
    have next : g.insertMany (first :: rest) = (g.insert first).insertMany rest := rfl
    rw [next, ih]
    by_cases known : first ∈ g
    · rw [Graph.insert_of_mem known]
    · have grown : {t | t ∈ (g.insert first).insertMany rest ∧ t ∉ g} =
          insert first {t | t ∈ (g.insert first).insertMany rest ∧ t ∉ g.insert first} := by
        ext t
        simp only [Set.mem_ofPred_eq, Set.mem_insert_iff, Graph.mem_insertMany, Graph.mem_insert]
        grind
      have apart : first ∉ {t | t ∈ (g.insert first).insertMany rest ∧ t ∉ g.insert first} :=
        fun member => member.2 (Graph.mem_insert.mpr (.inl rfl))
      rw [grown, Set.encard_insert_of_notMem apart, Graph.size_insert_of_not_mem known]
      push_cast
      rw [add_assoc, add_comm 1]

/-- Entailment adds to a graph what it entails and nothing else, and counts what is new. -/
theorem mem_entailCounted (g : Graph) (ontologies : List Graph) :
    (∀ t, t ∈ (entailCounted g ontologies).1 ↔ Entailed g ontologies t) ∧
      ((entailCounted g ontologies).2 : ℕ∞) = {t | Entailed g ontologies t ∧ t ∉ g}.encard := by
  refine ⟨fun t => mem_entail, ?_⟩
  obtain ⟨ts, whole⟩ : ∃ ts, entail g ontologies = g.insertMany ts :=
    ⟨_, (List.foldl_append ..).symm⟩
  have grown := size_insertMany ts g
  rw [← whole] at grown
  simp only [mem_entail] at grown
  rw [entailCounted, ENat.natCast_sub, grown]
  exact (ENat.addLECancellable_natCast g.size).add_tsub_cancel_left

end Entailment

end RepoAudit.Shacl
