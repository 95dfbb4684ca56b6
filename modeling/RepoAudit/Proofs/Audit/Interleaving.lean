import RepoAudit.Proofs.Audit.Invariant
import RepoAudit.Proofs.Gate.Record

/-!
# Changes in any order

Stages, runs of the gate and clearings may follow each other in any order. Each of them keeps issues
and links in step, so that they are in step in every state that a project passes through.
-/

namespace RepoAudit

open Project

/-! ### Recorded decisions -/

namespace Gate

/-- Results about different nodes are recorded as different issues. -/
def Apart (results : List Shacl.Violation) : Prop :=
  ∀ v ∈ results, ∀ w ∈ results, v.focus ≠ w.focus →
    issueId .shaclViolation (resultKey v) ≠ issueId .shaclViolation (resultKey w)

theorem exists_file_of_fileOf? {p : Project} {v : Shacl.Violation} {key : String}
    (about : fileOf? p v = some key) : ∃ f, p.files.get? key = some f := by
  obtain ⟨-, held⟩ := Option.filter_eq_some_iff.mp about
  exact Option.isSome_iff_exists.mp (Bool.and_eq_true_iff.mp held).2

end Gate

namespace Project

variable {p : Project}

theorem Linked.withDecision (linked : p.Linked) (d : Gate.Decision) (shapes : List String)
    (apart : Gate.Apart d.results) : (p.withDecision d shapes).Linked := by
  have recorded : (p.replaceAll .shaclViolation (d.results.map (Gate.issueOf p))).Linked := by
    refine linked.replaceAll ?_ ?_ ?_ ?_ <;> simp only [List.forall_mem_map]
    · exact fun _ _ => rfl
    · exact fun v _ => ⟨Gate.resultKey v, rfl⟩
    · exact fun _ _ _ about => Gate.exists_file_of_fileOf? about
    · intro v hv w hw same
      -- issues with one identifier are about one node, and a node tells the file
      have focus : v.focus = w.focus := by_contra fun other => apart v hv w hw other same
      simp only [Gate.issueOf, Gate.fileOf?, focus]
  exact ⟨recorded.files, recorded.issues, recorded.known, recorded.nodup, recorded.links⟩

end Project

/-! ### Changes -/

namespace Audit

/-- One change to the files or issues of a project. -/
inductive Change where
  /-- The files are now those that are text among these sources. -/
  | sources (hash : Digest.Algorithm) (found : List Source)
  | complexity (place : Option Files.Place) (measured : Measured)
  | markers (place : Option Files.Place)
  | history (config : Config) (entries : List History.Entry)
  | hotspots (topN : Nat)
  | gate (v : Shacl.Validator) (strict : Bool)
  | clear (kind : IssueKind)

def Change.apply (p : Project) : Change → Project
  | .sources hash found => p.withSources hash found
  | .complexity place measured => p.withComplexity place measured
  | .markers place => p.withMarkers place
  | .history config entries => p.withHistory config entries
  | .hotspots topN => p.withHotspots topN
  | .gate v strict => (p.gate v strict).2
  | .clear kind => p.clear kind

/-- No two nodes share the identifier of an issue where the gate is run. -/
def Change.Apart (p : Project) : Change → Prop
  | .gate v strict => Gate.Apart (p.gate v strict).1.results
  | _ => True

/-- A project before the first change and after each one. -/
def states (p : Project) : List Change → List Project
  | [] => [p]
  | change :: rest => p :: states (change.apply p) rest

/-- No two nodes share the identifier of an issue in any run of the gate. -/
def AllApart (p : Project) : List Change → Prop
  | [] => True
  | change :: rest => change.Apart p ∧ AllApart (change.apply p) rest

end Audit

namespace Project

variable {p : Project}

/-- One change keeps issues and links in step. -/
theorem Linked.change (linked : p.Linked) {change : Audit.Change} (apart : change.Apart p) :
    (change.apply p).Linked := by
  cases change with
  | sources hash found => exact linked.withSources hash found
  | complexity place measured => exact linked.withComplexity place measured
  | markers place =>
    rw [Audit.Change.apply, withMarkers_eq]
    exact (linked.counted place).replaceAll_of (isOf_markerIssues place)
  | history config entries => exact linked.withHistory config entries
  | hotspots topN =>
    rw [Audit.Change.apply, withHotspots_eq]
    exact linked.scored.replaceAll_of (isOf_hotspots topN)
  | gate v strict => exact linked.withDecision _ v.sources apart
  | clear kind => exact linked.clear kind

/-- Any sequence of changes does, at every step. -/
theorem linked_states (linked : p.Linked) (changes : List Audit.Change)
    (apart : Audit.AllApart p changes) : ∀ q ∈ Audit.states p changes, q.Linked := by
  induction changes generalizing p with
  | nil =>
    intro q state
    rwa [List.mem_singleton.mp state]
  | cons change rest ih =>
    intro q state
    obtain ⟨head, later⟩ := apart
    rcases List.mem_cons.mp state with rfl | after
    · exact linked
    · exact ih (linked.change head) later q after

end Project

/-! ### Files that come and go -/

namespace Audit

/-- A shape that wants two files to be literals, which no file is. -/
def literalFiles : Shacl.Shape :=
  .mk (.iri (Rdf.repo "FileShape")) (["a.py", "b.py"].map fun path => .node (Report.node (fileId path)))
    none [.nodeKind .literal (.iri (Rdf.sh "Literal"))] .violation none false []

def fileless : Shacl.Validator where
  shapesGraph := ∅
  shapes := { shapes := [literalFiles] }
  sources := ["shapes.ttl"]

/-- One finding for each of the two files. -/
def fileFindings : List Shacl.Finding := Shacl.findings ∅ fileless.shapes

/-- The two files are looked at whether a project has them or not. -/
theorem findings_fileless (data : Rdf.Graph) :
    Shacl.findings data fileless.shapes = fileFindings := by
  have nodes : Shacl.focusNodes data literalFiles = Shacl.focusNodes ∅ literalFiles := rfl
  have found (focus : Rdf.Term) : Shacl.shapeFindings data focus literalFiles =
      Shacl.shapeFindings ∅ focus literalFiles := rfl
  simp only [fileFindings, Shacl.findings, fileless, List.flatMap_singleton, nodes, found]

theorem apart_fileless (p : Project) (strict : Bool) :
    Gate.Apart (p.gate fileless strict).1.results := by
  have iris : ∀ f ∈ fileFindings, f.focus.isIri ∧ f.value.all Rdf.Term.isIri ∧ f.shape.id.isIri ∧
      f.shape.path = none := by decide +kernel
  have keys : ∀ f ∈ fileFindings, ∀ g ∈ fileFindings, f.rendered.focus ≠ g.rendered.focus →
      issueId .shaclViolation (Gate.resultKey f.rendered) ≠
        issueId .shaclViolation (Gate.resultKey g.rendered) := by decide +kernel
  have unreserved : ∀ f ∈ fileFindings, f.Unreserved := by
    intro f member
    obtain ⟨focus, value, source, path⟩ := iris f member
    exact Shacl.Finding.unreserved_of_isIri focus value source path
  have reported : fileless.report (Report.graph p) = Shacl.reportOf fileFindings :=
    congrArg Shacl.reportOf (findings_fileless _)
  have found {v : Shacl.Violation} (result : v ∈ (p.gate fileless strict).1.results) :
      ∃ f ∈ fileFindings, f.rendered = v := by
    change v ∈ Shacl.violations (fileless.report (Report.graph p)) at result
    rw [reported, (Shacl.violations_perm unreserved).mem_iff] at result
    exact List.mem_map.mp result
  intro v hv w hw
  obtain ⟨f, hf, rfl⟩ := found hv
  obtain ⟨g, hg, rfl⟩ := found hw
  exact keys f hf g hg

def firstFile : Source := ⟨"a.py", Text.encoded "x = 1  # TODO: more\n".toList⟩

def secondFile : Source := ⟨"b.py", Text.encoded "y = 2\n".toList⟩

/-- Markers and results of the gate are recorded, and then the first file goes. -/
def comings : List Change :=
  [.sources .xxh3 [firstFile, secondFile],
    .markers (some ⟨["demo"], [], .directory [("a.py", .file firstFile.content)]⟩),
    .gate fileless false, .sources .xxh3 [secondFile], .gate fileless true, .hotspots 5,
    .clear .shaclViolation]

theorem linked_states_of_comings : (Project.named "demo" "").Linked ∧
    AllApart (.named "demo" "") comings ∧ ∀ q ∈ states (.named "demo" "") comings, q.Linked := by
  have linked : (Project.named "demo" "").Linked := (audited_header (.named "demo" "")).toLinked
  have apart : AllApart (.named "demo" "") comings :=
    ⟨trivial, trivial, apart_fileless _ false, trivial, apart_fileless _ true, trivial, trivial,
      trivial⟩
  exact ⟨linked, apart, linked_states linked comings apart⟩

end Audit
end RepoAudit
