import RepoAudit.Proofs.Report.Entity
import RepoAudit.Proofs.Report.Turtle
import RepoAudit.Proofs.Shacl.Instances

/-!
# The graph of a project, record by record

All that the graph of a project says of a record is said by the facts of that record, as long as no
two records have one node. The project itself refers to its records by properties of their own.
-/

namespace RepoAudit.Report

open Project Rdf Shacl

/-! ### The vocabulary -/

@[simp] theorem repo_inj {a b : String} : repo a = repo b ↔ a = b := String.append_right_inj _

@[simp] theorem foaf_inj {a b : String} : foaf a = foaf b ↔ a = b := String.append_right_inj _

theorem ne_of_namespaces {ns ns' name name' : String}
    (listed : ns ∈ [Namespace.repo, Namespace.foaf, Namespace.prov, Namespace.rdf, Namespace.rdfs])
    (listed' : ns' ∈ [Namespace.repo, Namespace.foaf, Namespace.prov, Namespace.rdf, Namespace.rdfs])
    (apart : ns ≠ ns') : ns ++ name ≠ ns' ++ name' := by
  intro same
  have chars := congrArg String.toList same
  simp only [List.mem_cons, List.not_mem_nil, or_false] at listed listed'
  rcases listed with rfl | rfl | rfl | rfl | rfl <;>
    rcases listed' with rfl | rfl | rfl | rfl | rfl <;>
    first
    | exact apart rfl
    | simp [Namespace.repo, Namespace.foaf, Namespace.prov, Namespace.rdf, Namespace.rdfs] at chars

@[simp] theorem rdf_ne_repo (a b : String) : rdf a ≠ repo b :=
  ne_of_namespaces (by simp) (by simp) (by decide)

@[simp] theorem repo_ne_rdf (a b : String) : repo a ≠ rdf b := (rdf_ne_repo b a).symm

@[simp] theorem prov_ne_repo (a b : String) : prov a ≠ repo b :=
  ne_of_namespaces (by simp) (by simp) (by decide)

@[simp] theorem foaf_ne_repo (a b : String) : foaf a ≠ repo b :=
  ne_of_namespaces (by simp) (by simp) (by decide)

@[simp] theorem repo_ne_foaf (a b : String) : repo a ≠ foaf b := (foaf_ne_repo b a).symm

@[simp] theorem repo_ne_prov (a b : String) : repo a ≠ prov b := (prov_ne_repo b a).symm

@[simp] theorem rdf_ne_foaf (a b : String) : rdf a ≠ foaf b :=
  ne_of_namespaces (by simp) (by simp) (by decide)

@[simp] theorem foaf_ne_rdf (a b : String) : foaf a ≠ rdf b := (rdf_ne_foaf b a).symm

@[simp] theorem prov_ne_rdf (a b : String) : prov a ≠ rdf b :=
  ne_of_namespaces (by simp) (by simp) (by decide)

/-! ### Records -/

/-- The records of a project, with its pairs of files and its imports. -/
inductive Record where
  | project (p : Project)
  | file (f : File)
  | group (m : Module)
  | person (c : Person)
  | commit (c : Commit)
  | issue (i : Issue)
  | coupling (pair : UnorderedPair) (weight : Nat)
  | dependency (d : Dependency)

def couplingId (pair : UnorderedPair) : String :=
  "repo:coupling/" ++ Digest.shortHash s!"{pair.first}|{pair.second}"

def dependencyId (d : Dependency) : String :=
  "repo:dependency/" ++ Digest.shortHash s!"{d.source}|{d.target}"

theorem couplingNode_eq (pair : UnorderedPair) : couplingNode pair = node (couplingId pair) := rfl

theorem dependencyNode_eq (d : Dependency) : dependencyNode d = node (dependencyId d) := rfl

namespace Record

def id : Record → String
  | project p => p.id
  | file f => f.id
  | group m => m.id
  | person c => c.id
  | commit c => c.id
  | issue i => i.id
  | coupling pair _ => couplingId pair
  | dependency d => dependencyId d

/-- The class of a record. -/
def type : Record → String
  | project _ => "Project"
  | file _ => "File"
  | group _ => "Module"
  | person _ => "Contributor"
  | commit _ => "Commit"
  | issue _ => "Issue"
  | coupling _ _ => "CouplingEdge"
  | dependency _ => "DependencyEdge"

def facts : Record → List Triple
  | project p => projectFacts p
  | file f => fileFacts f
  | group m => moduleFacts m
  | person c => personFacts c
  | commit c => commitFacts c
  | issue i => issueFacts i
  | coupling pair weight => couplingFacts pair weight
  | dependency d => dependencyFacts d

/-- The record of a pair of files with its weight. -/
def ofEntry (e : UnorderedPair × Nat) : Record := coupling e.1 e.2

theorem facts_ofEntry (e : UnorderedPair × Nat) : (ofEntry e).facts = couplingFacts e.1 e.2 := rfl

end Record

def records (p : Project) : List Record :=
  .project p :: (p.files.values.map .file ++ p.modules.values.map .group ++
    p.contributors.values.map .person ++ p.commits.values.map .commit ++
    p.issues.values.map .issue ++ p.coupling.entries.map .ofEntry ++
    p.dependencies.toList.map .dependency)

/-- The properties by which a project refers to its records. -/
def links : List String :=
  ["hasFile", "hasModule", "hasContributor", "hasCommit", "hasIssue", "hasCoupling", "hasDependency"]

theorem mem_parts {α : Type} {p : Project} {predicate : String} {nodeOf : α → Term}
    {facts : α → List Triple} {records : List α} {t : Triple} :
    t ∈ parts p predicate nodeOf facts records ↔
      ∃ r ∈ records, t = fact (node p.id) predicate (nodeOf r) ∨ t ∈ facts r := by
  simp [parts]

theorem mem_facts_of_record {p : Project} {r : Record} (listed : r ∈ records p) {t : Triple}
    (held : t ∈ r.facts) : t ∈ facts p := by
  simp only [records, List.mem_cons, List.mem_append, List.mem_map] at listed
  simp only [facts, List.mem_append, mem_parts]
  rcases listed with rfl | (((((⟨x, member, rfl⟩ | ⟨x, member, rfl⟩) | ⟨x, member, rfl⟩) |
    ⟨x, member, rfl⟩) | ⟨x, member, rfl⟩) | ⟨x, member, rfl⟩) | ⟨x, member, rfl⟩
  · exact .inl (.inl (.inl (.inl (.inl (.inl (.inl held))))))
  · exact .inl (.inl (.inl (.inl (.inl (.inl (.inr ⟨x, member, .inr held⟩))))))
  · exact .inl (.inl (.inl (.inl (.inl (.inr ⟨x, member, .inr held⟩)))))
  · exact .inl (.inl (.inl (.inl (.inr ⟨x, member, .inr held⟩))))
  · exact .inl (.inl (.inl (.inr ⟨x, member, .inr held⟩)))
  · exact .inl (.inl (.inr ⟨x, member, .inr held⟩))
  · exact .inl (.inr ⟨x, member, .inr held⟩)
  · exact .inr ⟨x, member, .inr held⟩

/-- What is no fact of a record is a link from the project. -/
theorem record_of_mem_facts {p : Project} {t : Triple} (held : t ∈ facts p) :
    (∃ r ∈ records p, t ∈ r.facts) ∨
      t.subject = node p.id ∧ ∃ link ∈ links, t.predicate = .iri (repo link) := by
  have part {α : Type} {records' : List α} {link : String} {nodeOf : α → Term}
      {facts' : α → List Triple} (held : t ∈ parts p (repo link) nodeOf facts' records')
      (among : link ∈ links) (wrap : α → Record) (listed : ∀ x ∈ records', wrap x ∈ records p)
      (same : ∀ x, facts' x = (wrap x).facts) :
      (∃ r ∈ records p, t ∈ r.facts) ∨
        t.subject = node p.id ∧ ∃ link ∈ links, t.predicate = .iri (repo link) := by
    obtain ⟨x, member, rfl | own⟩ := mem_parts.mp held
    · exact .inr ⟨rfl, link, among, rfl⟩
    · exact .inl ⟨wrap x, listed x member, same x ▸ own⟩
  simp only [facts, List.mem_append] at held
  rcases held with ((((((own | held) | held) | held) | held) | held) | held) | held
  · exact .inl ⟨.project p, List.mem_cons_self, own⟩
  · exact part held (by decide) .file (by simp +contextual [records]) fun _ => rfl
  · exact part held (by decide) .group (by simp +contextual [records]) fun _ => rfl
  · exact part held (by decide) .person (by simp +contextual [records]) fun _ => rfl
  · exact part held (by decide) .commit (by simp +contextual [records]) fun _ => rfl
  · exact part held (by decide) .issue (by simp +contextual [records]) fun _ => rfl
  · refine part held (by decide) .ofEntry (fun e member => ?_) fun e => (Record.facts_ofEntry e).symm
    have kept := List.mem_map_of_mem (f := Record.ofEntry) member
    simp only [records, List.mem_cons, List.mem_append]
    exact .inr (.inl (.inr kept))
  · exact part held (by decide) .dependency (by simp +contextual [records]) fun _ => rfl

/-! ### What facts say -/

@[simp] theorem subject_fact (s : Term) (predicate : String) (o : Term) :
    (fact s predicate o).subject = s := rfl

@[simp] theorem subject_typeFact (s : Term) (type : String) : (typeFact s type).subject = s := rfl

theorem projectFacts_eq (p : Project) : projectFacts p =
    typeFact (node p.id) (repo "Project") :: fact (node p.id) (repo "name") (.string p.name) ::
      fact (node p.id) (repo "root") (.string p.root) ::
      (fact? (node p.id) (repo "analyzedAt") (fun t => .dateTime t.rfc3339) p.analyzedAt ++
        fact? (node p.id) (prov "generatedAtTime") (fun t => .dateTime t.rfc3339) p.analyzedAt ++
        fact? (node p.id) (repo "gitHead") .string p.gitHead) := by
  rw [projectFacts]
  cases p.analyzedAt <;> rfl

theorem fact?_of_filled (s : Term) (predicate : String) (text : String) :
    (if text.isEmpty then [] else [fact s predicate (.string text)]) =
      fact? s predicate .string (if text.isEmpty then none else some text) := by
  split <;> rfl

theorem subject_of_mem (r : Record) : ∀ t ∈ r.facts, t.subject = node r.id := by
  cases r with
  | project p => simp [Record.facts, Record.id, projectFacts_eq, or_imp, forall_and]
  | file f => simp [Record.facts, Record.id, fileFacts, or_imp, forall_and]
  | group m => simp [Record.facts, Record.id, moduleFacts, or_imp, forall_and]
  | person c =>
    simp [-String.isEmpty_iff, Record.facts, Record.id, personFacts, fact?_of_filled, or_imp, forall_and]
  | commit c => simp [Record.facts, Record.id, commitFacts, or_imp, forall_and]
  | issue i =>
    simp [-String.isEmpty_iff, Record.facts, Record.id, issueFacts, fact?_of_filled, or_imp, forall_and]
  | coupling pair weight =>
    simp [Record.facts, Record.id, couplingFacts, couplingNode_eq]
  | dependency d =>
    simp [Record.facts, Record.id, dependencyFacts, dependencyNode_eq, or_imp, forall_and]

/-- The values that facts give for a property. -/
def valuesOf (predicate : String) (ts : List Triple) : List Term :=
  (ts.filter (·.predicate = .iri predicate)).map (·.object)

section Values

variable {predicate other : String} {s o : Term} {ts us : List Triple}

@[simp] theorem valuesOf_nil : valuesOf predicate [] = [] := rfl

@[simp] theorem valuesOf_append :
    valuesOf predicate (ts ++ us) = valuesOf predicate ts ++ valuesOf predicate us := by
  simp [valuesOf]

@[simp] theorem valuesOf_fact : valuesOf predicate (fact s other o :: ts) =
    if other = predicate then o :: valuesOf predicate ts else valuesOf predicate ts := by
  by_cases same : other = predicate <;> simp [valuesOf, fact, same]

@[simp] theorem valuesOf_typeFact {type : String} :
    valuesOf predicate (typeFact s type :: ts) = if rdf "type" = predicate then
      .iri type :: valuesOf predicate ts else valuesOf predicate ts :=
  valuesOf_fact

@[simp] theorem valuesOf_fact? {α : Type} {term : α → Term} {a? : Option α} :
    valuesOf predicate (fact? s other term a?) =
      if other = predicate then (a?.map term).toList else [] := by
  cases a? <;> simp [fact?]

@[simp] theorem valuesOf_facts {α : Type} {term : α → Term} {xs : List α} :
    valuesOf predicate (xs.map fun x => fact s other (term x)) =
      if other = predicate then xs.map term else [] := by
  induction xs with
  | nil => simp
  | cons x rest ih => by_cases same : other = predicate <;> simp_all

theorem mem_valuesOf : o ∈ valuesOf predicate ts ↔ ∃ s, ⟨s, .iri predicate, o⟩ ∈ ts := by
  simp only [valuesOf, List.mem_map, List.mem_filter, decide_eq_true_eq]
  constructor
  · rintro ⟨⟨s, p, o⟩, ⟨held, rfl⟩, rfl⟩
    exact ⟨s, held⟩
  · rintro ⟨s, held⟩
    exact ⟨_, ⟨held, rfl⟩, rfl⟩

end Values

/-! ### The properties of a record -/

/-- The properties of the vocabulary of reports that a record may have. -/
def Record.properties : Record → List String
  | project _ => ["name", "root", "analyzedAt", "gitHead"]
  | file _ => ["path", "language", "loc", "sizeBytes", "checksum", "complexity", "maintainability",
      "churn", "linesAdded", "linesDeleted", "commitCount", "hotness", "todoCount", "inModule",
      "owner", "hasIssue"]
  | group _ => ["name", "loc", "containsFile"]
  | person _ => ["email", "commitCount", "linesAdded", "linesDeleted", "owns"]
  | commit _ => ["sha", "author", "message", "linesAdded", "linesDeleted", "touches"]
  | issue _ => ["issueType", "severity", "title", "description", "affects", "score"]
  | coupling _ _ => ["source", "target", "weight"]
  | dependency _ => ["source", "target", "resolvesTo"]

/-- A record has no other properties. -/
theorem valuesOf_eq_nil {r : Record} {property : String} (other : property ∉ r.properties) :
    valuesOf (repo property) r.facts = [] := by
  revert other
  cases r with
  | project p => simp +contextual [Record.properties, Record.facts, projectFacts_eq, eq_comm (a := property)]
  | file f => simp +contextual [Record.properties, Record.facts, fileFacts, eq_comm (a := property)]
  | group m => simp +contextual [Record.properties, Record.facts, moduleFacts, eq_comm (a := property)]
  | person c =>
    simp +contextual [-String.isEmpty_iff, Record.properties, Record.facts, personFacts,
      fact?_of_filled, eq_comm (a := property)]
  | commit c => simp +contextual [Record.properties, Record.facts, commitFacts, eq_comm (a := property)]
  | issue i =>
    simp +contextual [-String.isEmpty_iff, Record.properties, Record.facts, issueFacts,
      fact?_of_filled, eq_comm (a := property)]
  | coupling pair weight =>
    simp +contextual [Record.properties, Record.facts, couplingFacts, eq_comm (a := property)]
  | dependency d => simp +contextual [Record.properties, Record.facts, dependencyFacts, eq_comm (a := property)]

theorem mem_properties {r : Record} {property : String} {o : Term}
    (value : o ∈ valuesOf (repo property) r.facts) : property ∈ r.properties := by
  by_contra other
  rw [valuesOf_eq_nil other] at value
  exact List.not_mem_nil value

/-! ### The values of a record in the graph -/

/-- No two records have one node, imports apart. -/
def Distinct (p : Project) : Prop :=
  ∀ r ∈ records p, ∀ r' ∈ records p, r.type ≠ "DependencyEdge" → node r.id = node r'.id → r = r'

section Graph

variable {p : Project} {r : Record} (listed : r ∈ records p)

include listed in
theorem mem_objects_of_record {predicate : String} {o : Term}
    (held : o ∈ valuesOf predicate r.facts) :
    o ∈ (graph p).objects (node r.id) (.iri predicate) := by
  obtain ⟨s, held⟩ := mem_valuesOf.mp held
  rw [← subject_of_mem r _ held]
  exact Graph.mem_objects.mpr (mem_graph.mpr (mem_facts_of_record listed held))

/-- What the graph says of a node, links from the project apart, is a fact of a record with this
node. -/
theorem fact_mem_graph_iff {s o : Term} {predicate : String}
    (own : ∀ link ∈ links, predicate ≠ repo link) : fact s predicate o ∈ graph p ↔
      ∃ r ∈ records p, s = node r.id ∧ o ∈ valuesOf predicate r.facts := by
  constructor
  · intro held
    rcases record_of_mem_facts (mem_graph.mp held) with ⟨r, listed, stated⟩ | ⟨-, link, among, same⟩
    · exact ⟨r, listed, subject_of_mem r _ stated, mem_valuesOf.mpr ⟨s, stated⟩⟩
    · exact absurd (Term.iri.inj same) (own link among)
  · rintro ⟨r, listed, rfl, value⟩
    exact Graph.mem_objects.mp (mem_objects_of_record listed value)

variable (distinct : Distinct p) (known : r.type ≠ "DependencyEdge")
include listed distinct known

theorem mem_objects_iff {predicate : String} {o : Term}
    (own : ∀ link ∈ links, predicate ≠ repo link) :
    o ∈ (graph p).objects (node r.id) (.iri predicate) ↔ o ∈ valuesOf predicate r.facts := by
  refine ⟨fun held => ?_, mem_objects_of_record listed⟩
  obtain ⟨r', listed', same, value⟩ := (fact_mem_graph_iff own).mp (Graph.mem_objects.mp held)
  rwa [distinct r listed r' listed' known same]

omit listed distinct known in
theorem eq_of_single {values expected : List Term} (nodup : values.Nodup)
    (same : ∀ o, o ∈ values ↔ o ∈ expected) (single : expected.length ≤ 1) : values = expected := by
  match expected, single with
  | [], _ => exact List.eq_nil_iff_forall_not_mem.mpr fun o held => List.not_mem_nil ((same o).mp held)
  | [x], _ =>
    exact ((List.perm_ext_iff_of_nodup nodup (List.nodup_singleton x)).mpr same).eq_singleton

/-- A property of which the facts of a record give at most one value has just that value in the
graph. -/
theorem objects_eq {predicate : String} {values : List Term}
    (own : ∀ link ∈ links, predicate ≠ repo link) (given : valuesOf predicate r.facts = values)
    (single : values.length ≤ 1) :
    (graph p).objects (node r.id) (.iri predicate) = values := by
  refine eq_of_single (SortedSet.nodup_toList _) (fun o => ?_) single
  rw [mem_objects_iff listed distinct known own, given]

end Graph

/-! ### Classes -/

/-- A record has one class of the vocabulary of reports. -/
theorem type_iff {r : Record} {type : String} :
    .iri (repo type) ∈ valuesOf (rdf "type") r.facts ↔ type = r.type := by
  cases r with
  | project p => simp [Record.facts, Record.type, projectFacts_eq]
  | file f => simp [Record.facts, Record.type, fileFacts]
  | group m => simp [Record.facts, Record.type, moduleFacts]
  | person c => simp [-String.isEmpty_iff, Record.facts, Record.type, personFacts, fact?_of_filled]
  | commit c => simp [Record.facts, Record.type, commitFacts]
  | issue i => simp [-String.isEmpty_iff, Record.facts, Record.type, issueFacts, fact?_of_filled]
  | coupling pair weight => simp [Record.facts, Record.type, couplingFacts]
  | dependency d => simp [Record.facts, Record.type, dependencyFacts]

theorem rdfs_ne (name : String) : (∀ other, repo other ≠ rdfs name) ∧ (∀ other, foaf other ≠ rdfs name) ∧
    (∀ other, prov other ≠ rdfs name) ∧ ∀ other, rdf other ≠ rdfs name := by
  refine ⟨fun _ => ?_, fun _ => ?_, fun _ => ?_, fun _ => ?_⟩ <;>
    exact ne_of_namespaces (by simp) (by simp) (by decide)

theorem valuesOf_subClassOf (r : Record) : valuesOf (rdfs "subClassOf") r.facts = [] := by
  obtain ⟨inRepo, inFoaf, inProv, inRdf⟩ := rdfs_ne "subClassOf"
  cases r with
  | project p => simp [Record.facts, projectFacts_eq, inRepo, inProv, inRdf]
  | file f => simp [Record.facts, fileFacts, inRepo, inRdf]
  | group m => simp [Record.facts, moduleFacts, inRepo, inRdf]
  | person c =>
    simp [-String.isEmpty_iff, Record.facts, personFacts, fact?_of_filled, inRepo, inFoaf, inRdf]
  | commit c => simp [Record.facts, commitFacts, inRepo, inProv, inRdf]
  | issue i => simp [-String.isEmpty_iff, Record.facts, issueFacts, fact?_of_filled, inRepo, inRdf]
  | coupling pair weight => simp [Record.facts, couplingFacts, inRepo, inRdf]
  | dependency d => simp [Record.facts, dependencyFacts, inRepo, inRdf]

variable {p : Project}

/-- No class of the vocabulary is below another. -/
theorem subClassOf_not_mem {low high : Term} : ⟨low, .iri (rdfs "subClassOf"), high⟩ ∉ graph p := by
  intro held
  have own : ∀ link ∈ links, rdfs "subClassOf" ≠ repo link := fun link _ =>
    ((rdfs_ne "subClassOf").1 link).symm
  obtain ⟨r, -, -, value⟩ := (fact_mem_graph_iff own).mp held
  rw [valuesOf_subClassOf] at value
  cases value

theorem instanceOf_iff {node c : Term} :
    InstanceOf (graph p) node c ↔ ⟨node, .iri (rdf "type"), c⟩ ∈ graph p := by
  constructor
  · rintro ⟨type, typed, path⟩
    rcases Relation.ReflTransGen.cases_head path with rfl | ⟨_, below, -⟩
    · exact states_singleton.mp typed
    · exact absurd (states_singleton.mp below) subClassOf_not_mem
  · exact fun typed => ⟨c, states_singleton.mpr typed, .refl⟩

/-- The instances of a class are the nodes of the records of this class. -/
theorem mem_instancesOf_record {focus : Term} {type : String} :
    focus ∈ instancesOf (graph p) (.iri (repo type)) ↔
      ∃ r ∈ records p, focus = node r.id ∧ r.type = type := by
  rw [mem_instancesOf, instanceOf_iff]
  refine (fact_mem_graph_iff fun link _ => rdf_ne_repo _ link).trans (exists_congr fun r => ?_)
  rw [type_iff, eq_comm (a := type)]

theorem isInstance_record {r : Record} (listed : r ∈ records p) :
    isInstance (graph p) (node r.id) (.iri (repo r.type)) = true :=
  isInstance_iff.mpr (mem_instancesOf.mp (mem_instancesOf_record.mpr ⟨r, listed, rfl, rfl⟩))

end RepoAudit.Report
