import Mathlib.Data.List.Dedup
import RepoAudit.Proofs.Gate.Record
import RepoAudit.Proofs.Project.Links
import RepoAudit.Proofs.Shacl.Listed

/-!
# Results and their issues

The gate records an issue for each key of its results. Results that have a key in common share an
issue, which tells of the last of them only.
-/

namespace RepoAudit

namespace Project

/-! ### Numbers of issues -/

/-- The issues of a kind. -/
def issuesOf (p : Project) (kind : IssueKind) : List Issue := p.issues.values.filter (·.kind == kind)

variable {p : Project} {kind : IssueKind} {issues : List Issue}

theorem mem_ids_issuesOf (identified : p.Identified) {id : String} :
    id ∈ (p.issuesOf kind).map (·.id) ↔ ∃ i, p.issues.get? id = some i ∧ i.kind = kind := by
  rw [← identified.mem_idsOf, idsOf, SortedSet.mem_ofList]
  rfl

theorem nodup_ids_issuesOf (identified : p.Identified) (kind : IssueKind) :
    ((p.issuesOf kind).map (·.id)).Nodup := by
  have distinct : (p.issues.values.map (·.id)).Nodup :=
    SortedMap.nodup_values fun id i stored => (identified id i stored).1
  exact distinct.sublist (List.filter_sublist.map _)

/-- After issues of a kind have been replaced there is one for each identifier. -/
theorem length_issuesOf_replaceAll (identified : p.Identified) (named : ∀ i ∈ issues, i.Identified)
    (ofKind : ∀ i ∈ issues, i.kind = kind) :
    ((p.replaceAll kind issues).issuesOf kind).length = (issues.map (·.id)).dedup.length := by
  have replaced : (p.replaceAll kind issues).Identified :=
    identified_replaceAll identified named
  have same : (((p.replaceAll kind issues).issuesOf kind).map (·.id)).Perm
      (issues.map (·.id)).dedup := by
    refine (List.perm_ext_iff_of_nodup (nodup_ids_issuesOf replaced kind)
      (List.nodup_dedup _)).mpr fun id => ?_
    rw [mem_ids_issuesOf replaced, List.mem_dedup]
    simp only [get?_replaceAll_ofKind identified ofKind, ← Option.isSome_iff_exists,
      List.find?_isSome, List.mem_reverse, List.mem_map, decide_eq_true_eq]
  rw [← same.length_eq, List.length_map]

end Project

namespace Gate

open Project Rdf Shacl

variable {p : Project}

/-! ### Issues of results -/

theorem issueOf_identified (v : Violation) : (issueOf p v).Identified := ⟨resultKey v, rfl⟩

theorem issueOf_id_inj {v w : Violation} :
    (issueOf p v).id = (issueOf p w).id ↔ resultKey v = resultKey w :=
  ⟨key_of_issueId, congrArg (issueId .shaclViolation)⟩

theorem length_results (o : Outcome) :
    o.count .violation + o.count .warning + o.count .info = o.violations.length := by
  simp only [Outcome.count]
  induction o.violations with
  | nil => rfl
  | cons v rest ih =>
    cases severity : v.severity <;> simp [severity, ← ih] <;> omega

theorem length_dedup_eq_iff {α : Type} [DecidableEq α] {xs : List α} :
    xs.dedup.length = xs.length ↔ xs.Nodup := by
  rw [← List.dedup_eq_self]
  exact ⟨(List.dedup_sublist xs).eq_of_length, congrArg List.length⟩

section Recorded

variable (identified : p.Identified) (d : Decision) (shapes : List String)

include identified

theorem length_recorded : ((p.withDecision d shapes).issuesOf .shaclViolation).length =
    (d.results.map resultKey).dedup.length := by
  have ids : (d.results.map (issueOf p)).map (·.id) =
      (d.results.map resultKey).map (issueId .shaclViolation) := by
    rw [List.map_map, List.map_map]
    rfl
  have named : ∀ i ∈ d.results.map (issueOf p), i.Identified :=
    List.forall_mem_map.mpr fun v _ => issueOf_identified v
  have ofKind : ∀ i ∈ d.results.map (issueOf p), i.kind = .shaclViolation :=
    List.forall_mem_map.mpr fun _ _ => rfl
  calc ((p.withDecision d shapes).issuesOf .shaclViolation).length
      = ((d.results.map (issueOf p)).map (·.id)).dedup.length :=
        length_issuesOf_replaceAll identified named ofKind
    _ = (d.results.map resultKey).dedup.length := by
        rw [ids, List.dedup_map_of_injective fun _ _ => key_of_issueId, List.length_map]

end Recorded

theorem exists_last {vs : List Violation} {v : Violation} (member : v ∈ vs) : ∃ w ∈ vs,
    vs.reverse.find? (resultKey · = resultKey v) = some w ∧ resultKey w = resultKey v := by
  have found : (vs.reverse.find? (resultKey · = resultKey v)).isSome = true := by
    rw [List.find?_isSome]
    exact ⟨v, List.mem_reverse.mpr member, decide_eq_true rfl⟩
  obtain ⟨w, found⟩ := Option.isSome_iff_exists.mp found
  exact ⟨w, List.mem_reverse.mp (List.mem_of_find?_eq_some found), found,
    by simpa using List.find?_some found⟩

section Recorded

variable (p) (d : Decision) (shapes : List String)

/-- The issue of a result is that of the last one with its key. -/
theorem get?_recorded {v : Violation} (member : v ∈ d.results) :
    (p.withDecision d shapes).issues.get? (issueOf p v).id =
      (d.results.reverse.find? (resultKey · = resultKey v)).map (issueOf p) := by
  obtain ⟨w, -, found, -⟩ := exists_last member
  have last : (d.results.map (issueOf p)).reverse.find? (·.id = (issueOf p v).id) =
      (d.results.reverse.find? (resultKey · = resultKey v)).map (issueOf p) := by
    rw [← List.map_reverse, List.find?_map]
    simp only [Function.comp_def, issueOf_id_inj]
  rw [issues_withDecision, issues_replaceAll, last, found]
  rfl

/-- Every result is told of exactly if results with a key in common are described alike. -/
theorem described_iff : (∀ v ∈ d.results, ∃ i, (p.withDecision d shapes).issues.get?
      (issueOf p v).id = some i ∧ i.description = descriptionOf v) ↔
    ∀ v ∈ d.results, ∀ w ∈ d.results, resultKey v = resultKey w →
      descriptionOf v = descriptionOf w := by
  constructor
  · intro told v hv w hw same
    obtain ⟨i, stored, tells⟩ := told v hv
    obtain ⟨j, stored', tells'⟩ := told w hw
    rw [issueOf_id_inj.mpr same, stored'] at stored
    obtain rfl := Option.some.inj stored
    exact tells.symm.trans tells'
  · intro alike v hv
    obtain ⟨w, hw, found, same⟩ := exists_last hv
    refine ⟨issueOf p w, ?_, alike w hw v hv same⟩
    rw [get?_recorded p d shapes hv, found]
    rfl

end Recorded

/-! ### Running the gate -/

/-- The summary of a run counts all results, but there is one issue for each key of a result, and it
is that of the last result with the key. So every result has an issue of its own exactly if no two
have a key in common, and every result is told of exactly if those are described alike. -/
theorem gate_records (identified : p.Identified) (v : Validator) (strict : Bool) :
    let d := (p.gate v strict).1
    let q := (p.gate v strict).2
    (∃ s, q.validation = some s ∧ s.violations + s.warnings + s.infos = d.results.length) ∧
    (q.issuesOf .shaclViolation).length = (d.results.map resultKey).dedup.length ∧
    ((q.issuesOf .shaclViolation).length = d.results.length ↔ (d.results.map resultKey).Nodup) ∧
    (∀ r ∈ d.results, q.issues.get? (issueOf p r).id =
      (d.results.reverse.find? (resultKey · = resultKey r)).map (issueOf p)) ∧
    ((∀ r ∈ d.results, ∃ i, q.issues.get? (issueOf p r).id = some i ∧
        i.description = descriptionOf r) ↔
      ∀ r ∈ d.results, ∀ r' ∈ d.results, resultKey r = resultKey r' →
        descriptionOf r = descriptionOf r') := by
  intro d q
  have count : (q.issuesOf .shaclViolation).length = (d.results.map resultKey).dedup.length :=
    length_recorded identified d v.sources
  refine ⟨⟨_, rfl, length_results (v.validate (Report.graph p))⟩, count, ?_,
    fun r member => get?_recorded p d v.sources member, described_iff p d v.sources⟩
  rw [count, ← length_dedup_eq_iff, List.length_map]

/-- A project expected to be two other nodes, which it is not. -/
def expectantShapes : Graph :=
  (∅ : Graph).insertMany [
    ⟨.iri "ex:shape", .iri (sh "targetNode"), .iri (repo "project/demo")⟩,
    ⟨.iri "ex:shape", .iri (sh "hasValue"), .iri "ex:a"⟩,
    ⟨.iri "ex:shape", .iri (sh "hasValue"), .iri "ex:b"⟩]

def expectantShape : Shape :=
  .mk (.iri "ex:shape") [.node (.iri (repo "project/demo"))] none
    [.hasValue (.iri "ex:a"), .hasValue (.iri "ex:b")] .violation none false []

def expectant : Validator where
  shapesGraph := expectantShapes
  shapes := { shapes := [expectantShape] }
  sources := ["shapes.ttl"]

/-- The finding that the project is not some node. -/
def missingNode (iri : String) : Finding :=
  ⟨expectantShape, .iri (repo "project/demo"), none, .hasValue (.iri iri),
    (Constraint.hasValue (.iri iri)).failure⟩

section

open scoped Listed

theorem ordered_expected : (SortedSet.ofList [Term.iri "ex:a", .iri "ex:b"]).toList =
    [.iri "ex:a", .iri "ex:b"] := by decide +kernel

theorem shape_expectant : Statements.shape ⟨expectantShapes, .iri "ex:shape"⟩ [] = expectantShape := by
  simp [expectantShapes, expectantShape, ordered_expected]

theorem ofGraph_expectant : ShapeSet.ofGraph expectantShapes = some expectant.shapes := by
  rw [expectant, ← shape_expectant]
  refine ofGraph_alone (SortedSet.toList_eq_singleton fun x => ?_) ?_
    (Statements.skipped_eq_nil ?_) ?_ <;> simp [expectantShapes]

theorem findings_expectant (data : Graph) :
    findings data expectant.shapes = [missingNode "ex:a", missingNode "ex:b"] := by
  have a : repo "project/demo" ≠ "ex:a" := by decide
  have b : repo "project/demo" ≠ "ex:b" := by decide
  simp [expectant, expectantShape, missingNode, a.symm, b.symm]

end

theorem results_of_expectant (data : Graph) : (violations (expectant.report data)).Perm
    [(missingNode "ex:a").rendered, (missingNode "ex:b").rendered] := by
  have report : expectant.report data = reportOf (findings data expectant.shapes) := rfl
  rw [report]
  refine (violations_perm fun f found => ?_).trans (.of_eq ?_)
  · rw [findings_expectant] at found
    simp only [List.mem_cons, List.not_mem_nil, or_false] at found
    rcases found with rfl | rfl <;> exact Finding.unreserved_of_isIri rfl rfl rfl rfl
  · rw [findings_expectant]
    rfl

/-- Results for different values of the same shape, focus node, path and component have a key in
common. -/
theorem resultKey_congr {v w : Violation} (focus : v.focus = w.focus) (path : v.path = w.path)
    (component : v.component = w.component) (source : v.sourceShape = w.sourceShape) :
    resultKey v = resultKey w := by
  simp only [resultKey, Violation.componentName, focus, path, component, source]

theorem identified_named (name root : String) : (Project.named name root).Identified :=
  fun _ _ stored => by cases stored

theorem gate_records_demo :
    let p := Project.named "demo" ""
    let d := (p.gate expectant false).1
    let q := (p.gate expectant false).2
    p.Identified ∧ (q.issuesOf .shaclViolation).length = (d.results.map resultKey).dedup.length := by
  have identified := identified_named "demo" ""
  exact ⟨identified, (gate_records identified expectant false).2.1⟩

/-- Two results share one issue, and one of them is not told of. -/
theorem results_in_common : ∃ (p : Project) (v : Validator) (strict : Bool), p.Identified ∧
    ShapeSet.ofGraph v.shapesGraph = some v.shapes ∧
    let d := (p.gate v strict).1
    let q := (p.gate v strict).2
    d.results.length = 2 ∧ (q.issuesOf .shaclViolation).length = 1 ∧
      ∃ r ∈ d.results, ∀ i ∈ q.issuesOf .shaclViolation, i.description ≠ descriptionOf r := by
  let p := Project.named "demo" ""
  refine ⟨p, expectant, false, identified_named _ _, ofGraph_expectant, ?_⟩
  intro d q
  let a := (missingNode "ex:a").rendered
  let b := (missingNode "ex:b").rendered
  have results : d.results.Perm [a, b] := results_of_expectant (Report.graph p)
  have common : ∀ k ∈ d.results.map resultKey, k = resultKey a := by
    simp only [List.forall_mem_map, results.mem_iff, List.mem_cons, List.not_mem_nil, or_false]
    rintro r (rfl | rfl)
    · rfl
    · exact resultKey_congr rfl rfl rfl rfl
  have two : d.results.length = 2 := results.length_eq
  have one : (q.issuesOf .shaclViolation).length = 1 := by
    have keys : d.results.map resultKey = List.replicate 2 (resultKey a) :=
      List.eq_replicate_iff.mpr ⟨by rw [List.length_map, two], common⟩
    have count := length_recorded (identified_named "demo" "") d expectant.sources
    rw [keys, List.replicate_dedup (by decide)] at count
    exact count
  refine ⟨two, one, ?_⟩
  obtain ⟨i, single⟩ := List.length_eq_one_iff.mp one
  rw [single]
  simp only [List.mem_singleton, forall_eq]
  have apart : descriptionOf a ≠ descriptionOf b := by decide
  by_cases tells : i.description = descriptionOf a
  · exact ⟨b, results.mem_iff.mpr (by simp), fun same => apart (tells.symm.trans same)⟩
  · exact ⟨a, results.mem_iff.mpr (by simp), tells⟩

end Gate
end RepoAudit
