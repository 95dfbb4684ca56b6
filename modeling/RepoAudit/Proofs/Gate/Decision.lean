import RepoAudit.Gate.Record
import RepoAudit.Proofs.Shacl.Entailment
import RepoAudit.Proofs.Shacl.Listed
import RepoAudit.Proofs.Shacl.Validation

/-!
# What the gate decides

The gate looks only at how grave the results of a report are. Together with the report being exact,
`decision_of_failedChecks` tells its decision from the failing checks of the data.
-/

namespace RepoAudit.Gate

open Rdf Shacl

namespace Decision

theorem count_eq_zero {o : Outcome} {s : ResultSeverity} :
    o.count s = 0 ↔ ∀ v ∈ o.violations, v.severity ≠ s := by
  simp [Outcome.count, List.filter_eq_nil_iff]

theorem passed_iff (o : Outcome) (strict : Bool) : (ofOutcome o strict).passed = true ↔
    ∀ v ∈ o.violations, v.severity ≠ .violation ∧ (strict = true → v.severity ≠ .warning) := by
  have passed : (ofOutcome o strict).passed = true ↔
      o.count .violation = 0 ∧ (strict = true → o.count .warning = 0) := by
    cases strict <;> simp [ofOutcome]
  rw [passed, count_eq_zero, count_eq_zero]
  exact ⟨fun ⟨violations, warnings⟩ v member => ⟨violations v member, fun h => warnings h v member⟩,
    fun each => ⟨fun v member => (each v member).1, fun h v member => (each v member).2 h⟩⟩

/-- Nothing is named as a cause of failure exactly if the gate passes. -/
theorem passed_iff_failures (o : Outcome) (strict : Bool) :
    (ofOutcome o strict).passed = true ↔ (ofOutcome o strict).failures = [] := by
  rw [passed_iff, failures, List.filter_eq_nil_iff]
  refine forall₂_congr fun v _ => ?_
  cases v.severity <;> simp [ofOutcome]

theorem passed_of_strict (o : Outcome) (passed : (ofOutcome o true).passed = true) :
    (ofOutcome o false).passed = true := by
  rw [passed_iff] at passed ⊢
  exact fun v member => ⟨(passed v member).1, fun strict => by cases strict⟩

end Decision

/-! ### What the gate looks at -/

/-- Neither prefixes nor counters of a graph matter to a validation. -/
theorem findings_congr {g h : Graph} (same : ∀ t, t ∈ g ↔ t ∈ h) (set : ShapeSet) :
    findings g set = findings h set := by
  obtain ⟨subjects, predicates⟩ := Graph.index_eq same
  cases g
  cases h
  obtain rfl := subjects
  obtain rfl := predicates
  rw [findings_eq, findings_eq]
  rfl

/-- The gate decides alike on graphs with the same triples. -/
theorem evaluate_congr {g h : Graph} (same : ∀ t, t ∈ g ↔ t ∈ h) (v : Validator) (strict : Bool) :
    evaluate g v strict = evaluate h v strict := by
  have report : v.report g = v.report h := by
    rw [Validator.report, Validator.report]
    split
    · exact congrArg reportOf (findings_congr (fun _ => mem_entail_congr same) v.shapes)
    · exact congrArg reportOf (findings_congr same v.shapes)
  rw [evaluate, evaluate, Validator.validate, Validator.validate, report]

/-! ### What follows from the failing checks -/

theorem failedChecks_nil_iff {g : Graph} {set : ShapeSet} :
    (findings g set).isEmpty = true ↔ failedChecks g set = [] := by
  rw [findings_eq, List.isEmpty_map, List.isEmpty_iff]

/-- The report on a validation holds the failing checks and nothing else, in order, and both what it
says of conformance and what the gate decides on it follow from them. -/
theorem decision_of_failedChecks (shapesGraph data : Graph) (set : ShapeSet)
    (compiled : ShapeSet.ofGraph shapesGraph = some set) (nodes : GraphUnreserved data)
    (shapes : set.Unreserved) :
    let checks := failedChecks data set
    let outcome := Outcome.ofReport (reportOf (findings data set))
    outcome.violations.Perm (checks.map fun c => c.finding.rendered) ∧
    outcome.violations.Pairwise Violation.Precedes ∧
    (outcome.conforms = true ↔ checks = []) ∧
    (∀ strict, ((Decision.ofOutcome outcome strict).passed = true ↔
      ∀ c ∈ checks, c.shape.severity ≠ .violation ∧
        (strict = true → c.shape.severity ≠ .warning)) ∧
      ((Decision.ofOutcome outcome strict).passed = true ↔
        (Decision.ofOutcome outcome strict).failures = [])) ∧
    ((Decision.ofOutcome outcome true).passed = true →
      (Decision.ofOutcome outcome false).passed = true) := by
  intro checks outcome
  have exact : outcome.violations.Perm (checks.map fun c => c.finding.rendered) :=
    violations_findings compiled nodes shapes
  refine ⟨exact, violations_sorted _, ?_, fun strict => ⟨?_, ?_⟩, ?_⟩
  · rw [show outcome.conforms = (findings data set).isEmpty from conforms_reportOf _]
    exact failedChecks_nil_iff
  · rw [Decision.passed_iff]
    simp only [exact.mem_iff, List.forall_mem_map]
    rfl
  · exact Decision.passed_iff_failures outcome strict
  · exact Decision.passed_of_strict outcome

def acquaintance : Term := .iri "ex:acquaintance"

def knows : Term := .iri "ex:knows"

/-- One shape, which wants whoever knows somebody to be a literal. -/
def acquaintanceShapes : Graph :=
  (∅ : Graph).insertMany [
    ⟨acquaintance, .iri (sh "targetSubjectsOf"), knows⟩,
    ⟨acquaintance, .iri (sh "nodeKind"), .iri (sh "Literal")⟩]

def acquaintanceSet : ShapeSet where
  shapes := [Statements.shape ⟨acquaintanceShapes, acquaintance⟩ []]

def acquainted : Graph := (∅ : Graph).insert ⟨.blank "b1", knows, .iri "ex:ada"⟩

section

open scoped Listed

theorem targets_acquaintance :
    Statements.targets ⟨acquaintanceShapes, acquaintance⟩ = [.subjectsOf knows] := by
  simp [acquaintanceShapes]

theorem ofGraph_acquaintance : ShapeSet.ofGraph acquaintanceShapes = some acquaintanceSet := by
  refine ofGraph_alone (SortedSet.toList_eq_singleton fun x => ?_) ?_
    (Statements.skipped_eq_nil ?_) (by rw [targets_acquaintance]; rfl) <;> simp [acquaintanceShapes]

end

theorem decision_of_acquainted :
    ShapeSet.ofGraph acquaintanceShapes = some acquaintanceSet ∧ GraphUnreserved acquainted ∧
    acquaintanceSet.Unreserved ∧
    (violations (reportOf (findings acquainted acquaintanceSet))).Perm
      ((failedChecks acquainted acquaintanceSet).map fun c => c.finding.rendered) := by
  have person : Unreserved (.blank "b1") := unreserved_blank (by decide) ['1']
  have nodes : GraphUnreserved acquainted := by
    intro t member
    rw [acquainted, Graph.mem_insert] at member
    rcases member with rfl | absent
    · exact ⟨person, unreserved_of_isIri rfl⟩
    · exact absurd absent (Graph.not_mem_empty t)
  have shapes : acquaintanceSet.Unreserved := by
    intro s member
    obtain rfl := List.mem_singleton.mp member
    refine .intro ⟨unreserved_of_isIri rfl, fun n stated => ?_⟩ fun child attached => by cases attached
    change Target.node n ∈ Statements.targets ⟨acquaintanceShapes, acquaintance⟩ at stated
    simp [targets_acquaintance] at stated
  exact ⟨ofGraph_acquaintance, nodes, shapes,
    (decision_of_failedChecks acquaintanceShapes acquainted acquaintanceSet ofGraph_acquaintance
      nodes shapes).1⟩

end RepoAudit.Gate
