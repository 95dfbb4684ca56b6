import RepoAudit.Proofs.Project.Links
import RepoAudit.Proofs.Report.Records

/-!
# What a graph says of issues

The class of issues, their properties and the links to them say nothing of other records. So the
graphs of two projects that differ in issues and links only are told apart by triples about issues,
and what is new in a project whose issues of a kind were replaced tells of the new issues.
-/

namespace RepoAudit.Report

open Project Rdf

variable {p q : Project} {t : Triple}

/-- The properties of issues, after the one that leads to them. -/
def issueProperties : List String :=
  ["hasIssue", "issueType", "severity", "title", "description", "affects", "score"]

/-- A triple that makes a node an issue, leads to an issue or tells of it. -/
def AboutIssues (t : Triple) : Prop :=
  t.predicate = .iri (rdf "type") ∧ t.object = .iri (repo "Issue") ∨
    ∃ property ∈ issueProperties, t.predicate = .iri (repo property)

theorem aboutIssues_link (s o : Term) : AboutIssues (fact s (repo "hasIssue") o) :=
  .inr ⟨"hasIssue", .head _, rfl⟩

theorem aboutIssues_of_mem_issueFacts {i : Issue} : ∀ t ∈ issueFacts i, AboutIssues t := by
  simp [issueFacts, or_imp, forall_and, AboutIssues, issueProperties, typeFact, fact]

/-! ### The facts of a project, with and without issues -/

/-- What a project says of its issues. -/
def issueTriples (p : Project) : List Triple :=
  (p.files.values.flatMap fun f =>
    f.issues.map fun id => fact (node f.id) (repo "hasIssue") (node id)) ++
  parts p (repo "hasIssue") (fun i => node i.id) issueFacts p.issues.values

theorem aboutIssues_of_mem : ∀ t ∈ issueTriples p, AboutIssues t := by
  intro t held
  rcases List.mem_append.mp held with link | part
  · obtain ⟨f, -, link⟩ := List.mem_flatMap.mp link
    obtain ⟨id, -, rfl⟩ := List.mem_map.mp link
    exact aboutIssues_link _ _
  · obtain ⟨i, -, rfl | own⟩ := mem_parts.mp part
    · exact aboutIssues_link _ _
    · exact aboutIssues_of_mem_issueFacts t own

theorem fileFacts_eq (f : File) : fileFacts f = fileFacts (File.withoutLinks f) ++
    f.issues.map fun id => fact (node f.id) (repo "hasIssue") (node id) := by
  simp only [fileFacts, File.withoutLinks, File.relink, List.map_nil, List.append_nil]
  rfl

theorem mem_facts_iff : t ∈ facts p ↔ t ∈ facts p.withoutIssues ∨ t ∈ issueTriples p := by
  have files : t ∈ parts p (repo "hasFile") (fun f => node f.id) fileFacts p.files.values ↔
      t ∈ parts p (repo "hasFile") (fun f => node f.id) fileFacts p.withoutIssues.files.values ∨
        t ∈ p.files.values.flatMap fun f =>
          f.issues.map fun id => fact (node f.id) (repo "hasIssue") (node id) := by
    rw [values_withoutIssues, mem_parts, mem_parts, List.mem_flatMap]
    simp only [List.mem_map (l := p.files.values), exists_exists_and_eq_and, ← exists_or,
      ← and_or_left]
    refine exists_congr fun f => and_congr_right fun _ => ?_
    rw [fileFacts_eq f, List.mem_append, or_assoc]
    rfl
  have noIssues : t ∉ parts p.withoutIssues (repo "hasIssue") (fun i => node i.id) issueFacts
      p.withoutIssues.issues.values := List.not_mem_nil
  have reordered (a b c d e f g h i : Prop) :
      (((((((a ∨ b ∨ c) ∨ d) ∨ e) ∨ f) ∨ g) ∨ h) ∨ i ↔
        (((((((a ∨ b) ∨ d) ∨ e) ∨ f) ∨ False) ∨ h) ∨ i) ∨ c ∨ g) := by
    grind
  simp only [facts, List.mem_append, files, issueTriples, noIssues]
  exact reordered ..

theorem mem_graph_iff : t ∈ graph p ↔ t ∈ graph p.withoutIssues ∨ t ∈ issueTriples p := by
  rw [mem_graph, mem_graph, mem_facts_iff]

/-- Projects that differ in issues and links only are told apart by triples about issues. -/
theorem mem_graph_of_withoutIssues (same : q.withoutIssues = p.withoutIssues)
    (other : ¬ AboutIssues t) : t ∈ graph q ↔ t ∈ graph p := by
  rw [mem_graph_iff, mem_graph_iff (p := p), same, or_iff_left (mt (aboutIssues_of_mem t) other),
    or_iff_left (mt (aboutIssues_of_mem t) other)]

/-! ### Issues that are replaced -/

section Replaced

variable {kind : IssueKind} {issues : List Issue}

theorem withoutIssues_replaceAll (p : Project) (kind : IssueKind) (issues : List Issue) :
    (p.replaceAll kind issues).withoutIssues = p.withoutIssues := by
  rw [replaceAll, withoutIssues_recordAll, withoutIssues_clear]

/-- What is said of issues that were replaced was said before, or it tells of a new issue. -/
theorem mem_issueTriples_replaceAll (held : t ∈ issueTriples (p.replaceAll kind issues)) :
    t ∈ issueTriples p ∨ ∃ i ∈ issues, t ∈ issueFacts i ∨
      ∃ s, t = fact s (repo "hasIssue") (node i.id) := by
  rcases List.mem_append.mp held with link | part
  · obtain ⟨f, member, link⟩ := List.mem_flatMap.mp link
    obtain ⟨id, linked, rfl⟩ := List.mem_map.mp link
    obtain ⟨key, stored⟩ := SortedMap.mem_values.mp member
    rw [files_replaceAll] at stored
    obtain ⟨before, found, rfl⟩ := Option.map_eq_some_iff.mp stored
    rcases mem_linkAll.mp linked with kept | new
    · refine .inl (List.mem_append_left _ (List.mem_flatMap.mpr ⟨before, ?_, ?_⟩))
      · exact SortedMap.mem_values.mpr ⟨key, found⟩
      · exact List.mem_map.mpr ⟨id, (List.mem_filter.mp kept).1, rfl⟩
    · obtain ⟨i, recorded, rfl⟩ := List.mem_map.mp new
      exact .inr ⟨i, (List.mem_filter.mp recorded).1, .inr ⟨_, rfl⟩⟩
  · have sameId : (p.replaceAll kind issues).id = p.id := by rw [replaceAll_eq]
    obtain ⟨i, member, told⟩ := mem_parts.mp part
    rw [sameId] at told
    obtain ⟨key, stored⟩ := SortedMap.mem_values.mp member
    rw [issues_replaceAll, Option.or_eq_some_iff] at stored
    rcases stored with found | ⟨-, old⟩
    · have recorded : i ∈ issues := List.mem_reverse.mp (List.mem_of_find?_eq_some found)
      exact .inr ⟨i, recorded, told.symm.imp_right fun link => ⟨_, link⟩⟩
    · have kept := SortedMap.mem_values.mpr ⟨key, (Option.filter_eq_some_iff.mp old).1⟩
      exact .inl (List.mem_append_right _ (mem_parts.mpr ⟨i, kept, told⟩))

theorem mem_graph_replaceAll (held : t ∈ graph (p.replaceAll kind issues)) :
    t ∈ graph p ∨ ∃ i ∈ issues, t ∈ issueFacts i ∨
      ∃ s, t = fact s (repo "hasIssue") (node i.id) := by
  rw [mem_graph_iff, withoutIssues_replaceAll] at held
  rw [mem_graph_iff, or_assoc]
  exact held.imp_right mem_issueTriples_replaceAll

end Replaced

end RepoAudit.Report
