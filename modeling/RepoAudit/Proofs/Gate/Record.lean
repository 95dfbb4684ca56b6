import RepoAudit.Gate.Record
import RepoAudit.Proofs.Gate.Decision
import RepoAudit.Proofs.Report.Issues
import RepoAudit.Proofs.Shacl.Locality

/-!
# The gate run again

The gate checks a project together with the issues of its last run. `gate_again_iff` tells when a
second run decides the same and leaves the project alone, what the first run adds to the graph that
the second one checks, and which shapes do not see it.
-/

namespace RepoAudit.Gate

open Project Rdf Shacl

/-! ### Outcomes -/

/-- Two decisions with the same outcome; their reports may differ. -/
def Decision.SameOutcome (a b : Decision) : Prop :=
  a.passed = b.passed ∧ a.strict = b.strict ∧ a.conforms = b.conforms ∧
  a.violations = b.violations ∧ a.warnings = b.warnings ∧ a.infos = b.infos ∧ a.results = b.results

/-- All of a decision but its report follows from the results. -/
theorem sameOutcome_iff (v : Validator) (strict : Bool) (data data' : Graph) :
    (evaluate data v strict).SameOutcome (evaluate data' v strict) ↔
      violations (v.report data) = violations (v.report data') := by
  refine ⟨fun same => same.2.2.2.2.2.2, fun same => ?_⟩
  have agrees : conforms (v.report data) = conforms (v.report data') := by
    rw [Validator.report, Validator.report, conforms_eq_isEmpty, conforms_eq_isEmpty]
    exact congrArg List.isEmpty same
  have counts (s : ResultSeverity) : (v.validate data).count s = (v.validate data').count s :=
    congrArg (fun vs => (vs.filter (·.severity = s)).length) same
  simp only [Decision.SameOutcome, evaluate, Decision.ofOutcome, counts, true_and]
  exact ⟨agrees, same⟩

/-! ### Recorded results -/

theorem recordAll_validation (p : Project) (x : Option Validation) (issues : List Issue) :
    { p with validation := x }.recordAll issues = { p.recordAll issues with validation := x } := by
  induction issues generalizing p with
  | nil => rfl
  | cons first rest ih => exact ih (p.record first)

/-- Recording results leaves the identifiers of files as they are. -/
theorem contains_replaceAll (p : Project) (kind : IssueKind) (issues : List Issue) (id : String) :
    (p.replaceAll kind issues).files.contains id = p.files.contains id := by
  rw [SortedMap.contains, files_replaceAll, Option.isSome_map, ← SortedMap.contains]

theorem issues_withDecision (p : Project) (d : Decision) (shapes : List String) :
    (p.withDecision d shapes).issues =
      (p.replaceAll .shaclViolation (d.results.map (issueOf p))).issues := rfl

theorem issueOf_withDecision (p : Project) (d : Decision) (shapes : List String) :
    issueOf (p.withDecision d shapes) = issueOf p := by
  funext v
  have sameFile : fileOf? (p.withDecision d shapes) v = fileOf? p v := by
    unfold fileOf?
    congr
    funext key
    rw [← contains_replaceAll p .shaclViolation (d.results.map (issueOf p))]
    rfl
  rw [issueOf, sameFile]
  rfl

/-- Recording a decision with the same outcome again changes nothing exactly if the links of files
are settled. -/
theorem withDecision_again_iff (p : Project) (d d' : Decision) (shapes : List String)
    (same : d'.SameOutcome d) :
    (p.withDecision d shapes).withDecision d' shapes = p.withDecision d shapes ↔
      ∀ id f, p.files.get? id = some f →
        Settled (keptLinks p .shaclViolation f) ((d.results.map (issueOf p)).map (·.id))
          (idsAbout (d.results.map (issueOf p)) id) := by
  obtain ⟨-, -, conforms, violations, warnings, infos, results⟩ := same
  have kinds : ∀ i ∈ d.results.map (issueOf p), i.kind = .shaclViolation := by
    intro i member
    obtain ⟨_, _, rfl⟩ := List.mem_map.mp member
    rfl
  rw [← replaceAll_again_iff kinds]
  let once := p.replaceAll .shaclViolation (d.results.map (issueOf p))
  let twice := once.replaceAll .shaclViolation (d.results.map (issueOf p))
  let summary := (p.withDecision d shapes).validation
  have again : (p.withDecision d shapes).withDecision d' shapes =
      { twice with validation := summary } := by
    rw [Project.withDecision, issueOf_withDecision, results, conforms, violations, warnings, infos]
    exact congrArg (fun q : Project => { q with validation := summary })
      (recordAll_validation (once.clear .shaclViolation) summary _)
  rw [again]
  constructor
  · intro equal
    obtain ⟨files, issues⟩ : twice.files = once.files ∧ twice.issues = once.issues := by
      rw [Project.mk.injEq] at equal
      exact ⟨equal.2.2.2.2.2.1, equal.2.2.2.2.2.2.2.2.2.1⟩
    change twice = once
    rw [show twice = _ from replaceAll_eq once _ _, files, issues]
  · intro equal
    exact congrArg (fun q : Project => { q with validation := summary }) equal

/-! ### The graph of the second run -/

section Graph

variable (p : Project) (d : Decision) (shapes : List String) {t : Triple}

theorem graph_withDecision : Report.graph (p.withDecision d shapes) =
    Report.graph (p.replaceAll .shaclViolation (d.results.map (issueOf p))) := rfl

/-- A decision changes only what the graph says of issues. -/
theorem mem_graph_withDecision_iff (other : ¬ Report.AboutIssues t) :
    t ∈ Report.graph (p.withDecision d shapes) ↔ t ∈ Report.graph p := by
  rw [graph_withDecision]
  exact Report.mem_graph_of_withoutIssues (Report.withoutIssues_replaceAll p _ _) other

end Graph

/-- A shape that names neither the class of issues nor types or a property of issues. -/
structure BlindToIssues (s : Shape) : Prop where
  classes : .iri (repo "Issue") ∉ s.classes
  types : .iri (rdf "type") ∉ s.predicates
  properties : ∀ property ∈ Report.issueProperties, .iri (repo property) ∉ s.predicates

/-- Graphs of projects that differ in triples about issues only agree for such a shape. -/
theorem BlindToIssues.agree {s : Shape} (blind : BlindToIssues s) {p q : Project}
    (same : ∀ t, ¬ Report.AboutIssues t → (t ∈ Report.graph q ↔ t ∈ Report.graph p)) :
    s.Agree (Report.graph q) (Report.graph p) where
  classes c named node := by
    rw [Report.instanceOf_iff, Report.instanceOf_iff]
    refine same _ ?_
    rintro (⟨-, issues⟩ | ⟨property, -, type⟩)
    · exact blind.classes (issues ▸ named)
    · exact Report.rdf_ne_repo _ _ (Term.iri.inj type)
  predicates p named subject object := by
    refine same _ ?_
    rintro (⟨type, -⟩ | ⟨property, listed, issues⟩)
    · exact blind.types (type ▸ named)
    · exact blind.properties property listed (issues ▸ named)

/-- Shapes that are blind to issues find the same before and after a decision was recorded. -/
theorem report_withDecision {v : Validator} (plain : v.inference = false)
    (blind : v.shapes.Every BlindToIssues) (p : Project) (d : Decision) (shapes : List String) :
    v.report (Report.graph (p.withDecision d shapes)) = v.report (Report.graph p) := by
  have agree : v.shapes.Every (·.Agree (Report.graph (p.withDecision d shapes)) (Report.graph p)) :=
    fun top listed => (blind top listed).imp fun _ blind =>
      blind.agree fun _ other => mem_graph_withDecision_iff p d shapes other
  simp only [Validator.report, plain, Bool.false_eq_true, if_false, findings_agree agree]

/-! ### Running the gate -/

/-- A second run of the gate decides the same and leaves the project as the first run left it
exactly if the results of the first run do not change what validation finds, and no file had links
to them from before, except where they stand anyway. All that the first run changes in the graph are
triples about issues, and those that are new tell of the issues it records. So for shapes that are
blind to issues, which are checked without inference, only the links matter. -/
theorem gate_again_iff (p : Project) (v : Validator) (strict : Bool) :
    let d := (p.gate v strict).1
    let q := (p.gate v strict).2
    let issues := d.results.map (issueOf p)
    let again := (q.gate v strict).1.SameOutcome d ∧ (q.gate v strict).2 = q
    let settled := ∀ id f, p.files.get? id = some f →
      Settled (keptLinks p .shaclViolation f) (issues.map (·.id)) (idsAbout issues id)
    (again ↔ violations (v.report (Report.graph q)) = violations (v.report (Report.graph p)) ∧
      settled) ∧
    (∀ t, ¬ Report.AboutIssues t → (t ∈ Report.graph q ↔ t ∈ Report.graph p)) ∧
    (∀ t ∈ Report.graph q, t ∈ Report.graph p ∨ ∃ i ∈ issues, t ∈ Report.issueFacts i ∨
      ∃ s, t = Report.fact s (repo "hasIssue") (Report.node i.id)) ∧
    (v.inference = false → v.shapes.Every BlindToIssues → (again ↔ settled)) := by
  intro d q issues again settled
  have outcome : (q.gate v strict).1.SameOutcome d ↔
      violations (v.report (Report.graph q)) = violations (v.report (Report.graph p)) :=
    sameOutcome_iff v strict _ _
  have whole : again ↔
      violations (v.report (Report.graph q)) = violations (v.report (Report.graph p)) ∧ settled := by
    rw [← outcome]
    exact and_congr_right fun same => withDecision_again_iff p d _ v.sources same
  refine ⟨whole, fun t other => mem_graph_withDecision_iff p d v.sources other, fun t held => ?_,
    fun plain blind => ?_⟩
  · exact Report.mem_graph_replaceAll held
  · rw [whole]
    exact and_iff_right (congrArg violations (report_withDecision plain blind p d v.sources))

/-! ### Results that are fed back -/

/-- A shape that wants the instances of a class to be literals. -/
def literalsOnly (name type : String) : Shape :=
  .mk (.iri (repo name)) [.ofClass (.iri (repo type))] none
    [.nodeKind .literal (.iri (sh "Literal"))] .violation none false []

/-- Two shapes, which want projects and issues to be literals. -/
def issuelessShapes : Graph :=
  (∅ : Graph).insertMany [
    ⟨.iri (repo "P"), .iri (rdf "type"), .iri (sh "NodeShape")⟩,
    ⟨.iri (repo "P"), .iri (sh "targetClass"), .iri (repo "Project")⟩,
    ⟨.iri (repo "P"), .iri (sh "nodeKind"), .iri (sh "Literal")⟩,
    ⟨.iri (repo "I"), .iri (rdf "type"), .iri (sh "NodeShape")⟩,
    ⟨.iri (repo "I"), .iri (sh "targetClass"), .iri (repo "Issue")⟩,
    ⟨.iri (repo "I"), .iri (sh "nodeKind"), .iri (sh "Literal")⟩]

def issueless : Validator where
  shapesGraph := issuelessShapes
  shapes := { shapes := [literalsOnly "I" "Issue", literalsOnly "P" "Project"] }
  sources := ["shapes.ttl"]

section

open scoped Listed

theorem roots_issueless : (roots issuelessShapes).toList = [.iri (repo "I"), .iri (repo "P")] := by
  have same : roots issuelessShapes = .ofList [.iri (repo "I"), .iri (repo "P")] :=
    SortedSet.ext_mem fun x => by simp [issuelessShapes, exists_or, or_comm]
  rw [same]
  decide +kernel

theorem skipped_issueless (id : Term) : Statements.skipped ⟨issuelessShapes, id⟩ = [] :=
  Statements.skipped_eq_nil (by simp [issuelessShapes])

theorem alone_issueless (id : Term) : Statements.all ⟨issuelessShapes, id⟩ "property" = [] := by
  simp [issuelessShapes]

theorem shape_issueless :
    Statements.shape ⟨issuelessShapes, .iri (repo "I")⟩ [] = literalsOnly "I" "Issue" ∧
    Statements.shape ⟨issuelessShapes, .iri (repo "P")⟩ [] = literalsOnly "P" "Project" := by
  have noClass : rdfs "Class" ≠ sh "NodeShape" := by decide
  constructor <;>
    simp [issuelessShapes, literalsOnly, Statements.nodeKind?, Term.iri?, NodeKind.ofIri?,
      NodeKind.all, noClass]

end

theorem ofGraph_issueless : Validator.ofGraph issuelessShapes ["shapes.ttl"] = .ok issueless := by
  have compiled : ShapeSet.ofGraph issuelessShapes = some issueless.shapes := by
    rw [ShapeSet.ofGraph, roots_issueless, List.mapM_cons, compileShape_alone (alone_issueless _),
      skipped_issueless, shape_issueless.1, List.mapM_cons, compileShape_alone (alone_issueless _),
      skipped_issueless, shape_issueless.2]
    rfl
  rw [Validator.ofGraph, compiled]
  rfl

/-- The nodes that such a shape selects are those of the records of the class. -/
theorem mem_focusNodes_literalsOnly {p : Project} {name type : String} {focus : Term} :
    focus ∈ focusNodes (Report.graph p) (literalsOnly name type) ↔
      ∃ r ∈ Report.records p, focus = Report.node r.id ∧ r.type = type := by
  have one : focusNodes (Report.graph p) (literalsOnly name type) =
      .ofList ((instancesOf (Report.graph p) (.iri (repo type))).toList ++ []) := rfl
  rw [one, List.append_nil, SortedSet.mem_ofList, SortedSet.mem_toList,
    Report.mem_instancesOf_record]

/-- Each of them is a result, for none is a literal. -/
theorem exists_finding {p : Project} {set : ShapeSet} {name : String} {r : Report.Record}
    (stated : literalsOnly name r.type ∈ set.shapes) (listed : r ∈ Report.records p) :
    ∃ f ∈ findings (Report.graph p) set, f.shape = literalsOnly name r.type := by
  let shape := literalsOnly name r.type
  let wanted : Constraint := .nodeKind .literal (.iri (sh "Literal"))
  have focused : Report.node r.id ∈ focusNodes (Report.graph p) shape :=
    mem_focusNodes_literalsOnly.mpr ⟨r, listed, rfl, rfl⟩
  let check : Check := ⟨shape, Report.node r.id, wanted, some (Report.node r.id)⟩
  have failed : check ∈ failedChecks (Report.graph p) set :=
    mem_failedChecks_iff.mpr
      ⟨shape, stated, focused, Shape.self_mem_active.mpr rfl, .head _, .head _⟩
  rw [findings_eq]
  exact ⟨check.finding, List.mem_map_of_mem failed, rfl⟩

/-- There is a result for a project and one for each issue. -/
theorem length_findings_issueless {p : Project} {i : Issue} (recorded : i ∈ p.issues.values) :
    (findings (Report.graph p) issueless.shapes).length ≠ 1 := by
  have issue : .issue i ∈ Report.records p := by simp [Report.records, recorded]
  obtain ⟨f, found, ofIssue⟩ : ∃ f ∈ findings (Report.graph p) issueless.shapes,
      f.shape = literalsOnly "I" "Issue" := exists_finding (.head _) issue
  obtain ⟨g, found', ofProject⟩ : ∃ g ∈ findings (Report.graph p) issueless.shapes,
      g.shape = literalsOnly "P" "Project" :=
    exists_finding (r := .project p) (.tail _ (.head _)) (.head _)
  intro single
  obtain ⟨only, same⟩ := List.length_eq_one_iff.mp single
  rw [same, List.mem_singleton] at found found'
  rw [found, ← found', ofProject] at ofIssue
  exact absurd (congrArg Shape.id ofIssue) (by decide)

/-- What is found in a project without issues. -/
def projectFinding : Finding where
  shape := literalsOnly "P" "Project"
  focus := .iri (repo "project/demo")
  value := some (.iri (repo "project/demo"))
  constraint := .nodeKind .literal (.iri (sh "Literal"))
  message := "Value does not have node kind <http://www.w3.org/ns/shacl#Literal>"

theorem findings_of_demo :
    findings (Report.graph (.named "demo" "")) issueless.shapes = [projectFinding] := by
  let data := Report.graph (.named "demo" "")
  have only : ∀ r ∈ Report.records (.named "demo" ""), r = .project (.named "demo" "") :=
    fun r listed => List.mem_singleton.mp listed
  have issues : (focusNodes data (literalsOnly "I" "Issue")).toList = [] := by
    refine List.eq_nil_iff_forall_not_mem.mpr fun focus selected => ?_
    obtain ⟨r, listed, -, type⟩ := mem_focusNodes_literalsOnly.mp (SortedSet.mem_toList.mp selected)
    rw [only r listed] at type
    exact absurd type (by decide)
  have projects : (focusNodes data (literalsOnly "P" "Project")).toList =
      [.iri (repo "project/demo")] := by
    refine SortedSet.toList_eq_singleton fun focus => mem_focusNodes_literalsOnly.trans ?_
    have node : Report.node (Project.named "demo" "").id = .iri (repo "project/demo") := by
      decide +kernel
    constructor
    · rintro ⟨r, listed, rfl, -⟩
      rw [only r listed]
      exact node
    · rintro rfl
      exact ⟨.project (.named "demo" ""), .head _, node.symm, rfl⟩
  change (focusNodes data (literalsOnly "I" "Issue")).toList.flatMap _ ++
    ((focusNodes data (literalsOnly "P" "Project")).toList.flatMap _ ++ []) = _
  rw [issues, projects]
  rfl

theorem results_of_demo : violations (issueless.report (Report.graph (.named "demo" ""))) =
    [projectFinding.rendered] := by
  have report : issueless.report (Report.graph (.named "demo" "")) = reportOf [projectFinding] :=
    congrArg reportOf findings_of_demo
  rw [report]
  refine List.perm_singleton.mp (violations_perm fun f found => ?_)
  obtain rfl := List.mem_singleton.mp found
  exact Finding.unreserved_of_isIri rfl rfl rfl rfl

theorem issues_gate (p : Project) (v : Validator) (strict : Bool) :
    (p.gate v strict).2.issues = (p.replaceAll .shaclViolation
      ((p.gate v strict).1.results.map (issueOf p))).issues :=
  issues_withDecision p _ v.sources

theorem length_results_gate (p : Project) (strict : Bool) :
    (p.gate issueless strict).1.results.length =
      (findings (Report.graph p) issueless.shapes).length :=
  length_violations _

/-- The issue that a first run records is a result of the second. -/
theorem gate_feeds_back : Validator.ofGraph issuelessShapes ["shapes.ttl"] = .ok issueless ∧
    let d := (Project.gate (.named "demo" "") issueless false).1
    let q := (Project.gate (.named "demo" "") issueless false).2
    ¬ ((q.gate issueless false).1.SameOutcome d ∧ (q.gate issueless false).2 = q) := by
  refine ⟨ofGraph_issueless, ?_⟩
  intro d q again
  let issue := issueOf (.named "demo" "") projectFinding.rendered
  have first : d.results = [projectFinding.rendered] := results_of_demo
  have recorded : issue ∈ q.issues.values := by
    refine SortedMap.mem_values.mpr ⟨issue.id, ?_⟩
    rw [issues_gate, first, issues_replaceAll, List.map_singleton, List.reverse_singleton]
    simp [issue]
  have second : (q.gate issueless false).1.results = [projectFinding.rendered] :=
    again.1.2.2.2.2.2.2.trans first
  refine length_findings_issueless recorded ?_
  rw [← length_results_gate q false, second]
  rfl

end RepoAudit.Gate
