import RepoAudit.Proofs.Shacl.Report

/-!
# Validations reported exactly

The report on a validation gives back the failing checks of the data. The terms of a check are
terms of the data or of the shapes, so only their labels matter.
-/

namespace RepoAudit.Shacl

open Rdf

/-- No node of a graph is labelled like the node of an inverse path. -/
def GraphUnreserved (g : Graph) : Prop := ∀ t ∈ g, Unreserved t.subject ∧ Unreserved t.object

/-- No shape and no target node is labelled like the node of an inverse path. -/
def ShapeSet.Unreserved (set : ShapeSet) : Prop :=
  set.Every fun s => Shacl.Unreserved s.id ∧ ∀ n, .node n ∈ s.targets → Shacl.Unreserved n

variable {g : Graph} {set : ShapeSet}

/-! ### Terms of a check -/

section Terms

variable {P : Term → Prop} (data : ∀ t ∈ g, P t.subject ∧ P t.object)

include data

theorem focus_of_data {s : Shape} (targets : ∀ n, .node n ∈ s.targets → P n) :
    ∀ focus ∈ focusNodes g s, P focus := by
  intro focus selected
  obtain ⟨target, stated, selected⟩ := List.mem_flatMap.mp (SortedSet.mem_ofList.mp selected)
  cases target with
  | ofClass c =>
    obtain ⟨below, -, typed⟩ := List.mem_flatMap.mp (SortedSet.mem_ofList.mp selected)
    exact (data _ (Graph.mem_subjects.mp typed)).1
  | node n =>
    obtain rfl := List.mem_singleton.mp selected
    exact targets focus stated
  | subjectsOf p =>
    obtain ⟨o, held⟩ := Graph.mem_subjectsWith.mp selected
    exact (data _ held).1
  | objectsOf p =>
    obtain ⟨s, held⟩ := Graph.mem_objectsWith.mp selected
    exact (data _ held).2

theorem values_of_data {focus : Term} (known : P focus) (s : Shape) :
    ∀ v ∈ s.values g focus, P v := by
  intro v reached
  unfold Shape.values at reached
  split at reached
  · rename_i path _
    cases path with
    | predicate p => exact (data _ (Graph.mem_objects.mp reached)).2
    | inverse p => exact (data _ (Graph.mem_subjects.mp reached)).1
  · obtain rfl := List.mem_singleton.mp reached
    exact known

/-- What holds of the nodes of the data and of target nodes holds of the terms of a check. -/
theorem check_of_data (targets : ∀ s ∈ set.shapes, ∀ n, .node n ∈ s.targets → P n) {c : Check}
    (failed : c ∈ failedChecks g set) : P c.focus ∧ ∀ v ∈ c.value, P v := by
  obtain ⟨top, listed, selected, -, reached⟩ := mem_failedChecks failed
  have focus : P c.focus := focus_of_data data (targets top listed) c.focus selected
  exact ⟨focus, fun v same => values_of_data data focus c.shape v (reached v same)⟩

end Terms

theorem finding_unreserved (named : set.Every Shape.PathNamed) (data : GraphUnreserved g)
    (shapes : set.Unreserved) {c : Check} (failed : c ∈ failedChecks g set) :
    c.finding.Unreserved := by
  obtain ⟨top, listed, -, active, -⟩ := mem_failedChecks failed
  obtain ⟨focus, value⟩ :=
    check_of_data (P := Unreserved) data (fun s member => (shapes s member).here.2) failed
  exact {
    focus
    value
    source := ((shapes top listed).of_active c.shape active).1
    path := (named top listed).of_active c.shape active }

/-- The report on a validation against compiled shapes gives back the failing checks, each as
often as it occurs, and nothing else. -/
theorem violations_findings {shapesGraph : Graph}
    (compiled : ShapeSet.ofGraph shapesGraph = some set) (data : GraphUnreserved g)
    (shapes : set.Unreserved) :
    (violations (reportOf (findings g set))).Perm
      ((failedChecks g set).map fun c => c.finding.rendered) := by
  have unreserved : ∀ f ∈ findings g set, f.Unreserved := by
    intro f found
    rw [findings_eq] at found
    obtain ⟨c, failed, rfl⟩ := List.mem_map.mp found
    exact finding_unreserved (ofGraph_pathNamed compiled) data shapes failed
  refine (violations_perm unreserved).trans (.of_eq ?_)
  rw [findings_eq, List.map_map]
  rfl

end RepoAudit.Shacl
