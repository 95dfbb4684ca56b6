import RepoAudit.Proofs.Shacl.Shapes
import RepoAudit.Shacl.Validate

/-!
# Shapes graphs given triple by triple

What a graph of some triples says of a shape is read off the triples themselves: which objects a
parameter has, which nodes are roots, and whether anything is skipped. So closed shapes graphs are
evaluated by rewriting, where running the reader would compare the same long IRIs over and over.
-/

namespace RepoAudit

namespace SortedSet

variable {α : Type} [Ord α] [Std.TransOrd α]

@[simp] theorem toList_ofList_nil : (ofList ([] : List α)).toList = [] := rfl

@[simp] theorem toList_ofList_singleton (a : α) : (ofList [a]).toList = [a] := rfl

theorem toList_eq_singleton [Std.LawfulEqOrd α] {s : SortedSet α} {a : α}
    (only : ∀ x, x ∈ s ↔ x = a) : s.toList = [a] := by
  have same : s = ofList [a] := ext_mem fun x => by simp [only]
  rw [same, toList_ofList_singleton]

end SortedSet

namespace Rdf.Graph

@[simp] theorem mem_listed {ts : List Triple} {t : Triple} :
    t ∈ (∅ : Graph).insertMany ts ↔ t ∈ ts := by
  rw [mem_insertMany, or_iff_left (not_mem_empty t)]

theorem objects_listed (ts : List Triple) (s p : Term) :
    ((∅ : Graph).insertMany ts).objects s p = (SortedSet.ofList (ts.filterMap fun t =>
      if t.subject = s ∧ t.predicate = p then some t.object else none)).toList := by
  refine congrArg SortedSet.toList (SortedSet.ext_mem fun o => ?_)
  have held : ⟨s, p, o⟩ ∈ (∅ : Graph).insertMany ts ↔ o ∈ SortedSet.ofList (ts.filterMap fun t =>
      if t.subject = s ∧ t.predicate = p then some t.object else none) := by
    rw [mem_listed, SortedSet.mem_ofList, List.mem_filterMap]
    constructor
    · exact fun listed => ⟨_, listed, by simp⟩
    · rintro ⟨t, listed, same⟩
      simp only [Option.ite_none_right_eq_some, Option.some.injEq] at same
      obtain ⟨⟨rfl, rfl⟩, rfl⟩ := same
      exact listed
  exact mem_iff.symm.trans held

theorem contains_listed (ts : List Triple) (t : Triple) :
    ((∅ : Graph).insertMany ts).contains t = ts.contains t := by
  have held : ((∅ : Graph).insertMany ts).contains t = true ↔ t ∈ ts := mem_listed
  rw [Bool.eq_iff_iff, held, List.contains_iff_mem]

end Rdf.Graph

namespace Shacl

open Rdf

namespace Statements

theorem all_listed (ts : List Triple) (id : Term) (parameter : String) :
    all ⟨(∅ : Graph).insertMany ts, id⟩ parameter = (SortedSet.ofList (ts.filterMap fun t =>
      if t.subject = id ∧ t.predicate = .iri (sh parameter) then some t.object else none)).toList :=
  Graph.objects_listed ts id (.iri (sh parameter))

theorem skipped_eq_nil {s : Statements} (supported : ∀ iri ∈ unsupported, ∀ o,
    ⟨s.id, .iri iri, o⟩ ∉ s.graph) : s.skipped = [] := by
  refine List.filterMap_eq_nil_iff.mpr fun ⟨p, o⟩ listed => ?_
  cases p with
  | iri iri =>
    have known : iri ∉ unsupported := fun member =>
      supported iri member o (Graph.mem_properties.mp listed)
    simp [Term.iri?, known]
  | _ => rfl

end Statements

theorem count?_one : count? (.integer 1) = some 1 := by decide +kernel

/-! ### Evaluation

With `open scoped Listed`, `simp` reads shapes off listed graphs and checks them. -/

namespace Listed

attribute [scoped simp] Graph.objects_listed Graph.contains_listed Statements.all_listed mem_roots
  Statements.shape Statements.targets Statements.path Statements.constraints Statements.severity
  Statements.message Statements.deactivated Statements.first? Statements.isA path? unsupported
  count?_one

attribute [scoped simp] findings focusNodes Shape.targets Shape.path Shape.constraints
  Shape.message Shape.deactivated Target.nodes Path.values Shape.values shapeFindings
  propertyFindings ownFindings Constraint.failures Constraint.admitsAll Constraint.admits

end Listed

end Shacl
end RepoAudit
