import RepoAudit.Proofs.Gate.Decision
import RepoAudit.Proofs.Ordered.Gathering
import RepoAudit.Proofs.Turtle.Document
import RepoAudit.Report.Export

/-!
# The report in Turtle

Whatever a project says, its graph can be written: identifiers are encoded before they become IRIs,
texts are escaped, and no node is without a name. So the report reads back as the graph of the
project, and the gate decides alike on both.
-/

namespace RepoAudit.Report

open Project Rdf Turtle

/-! ### IRIs -/

theorem plainIri_append {a b : String} :
    PlainIri (a ++ b).toList ↔ PlainIri a.toList ∧ PlainIri b.toList := by
  rw [String.toList_append]
  exact List.forall_mem_append

theorem plainIri_upperDigit : ∀ n < 16, PlainIri [upperDigit n] := by
  decide

/-- An encoded byte consists of characters that may stand in an IRI. -/
theorem plainIri_encodeByte (b : UInt8) : PlainIri (encodeByte b) := by
  unfold encodeByte
  split
  · rename_i plain
    rw [PlainIri, List.forall_mem_singleton]
    refine ⟨?_, ?_, ?_, ?_⟩ <;>
    · intro same
      rw [isPlainByte, same] at plain
      revert plain
      decide
  · have small := b.toNat_lt
    rw [PlainIri, List.forall_mem_cons, List.forall_mem_cons]
    exact ⟨by decide, plainIri_upperDigit _ (by omega) _ (.head _),
      plainIri_upperDigit _ (by omega)⟩

theorem plainIri_entityIri (id : String) : PlainIri (entityIri id).toList := by
  refine plainIri_append.mpr ⟨by decide, ?_⟩
  rw [String.toList_ofList]
  intro c member
  obtain ⟨b, -, member⟩ := List.mem_flatMap.mp member
  exact plainIri_encodeByte b c member

/-! ### Facts -/

/-- What survives being written under its own name. -/
def Plain (t : Term) : Prop := PlainTerm t ∧ t.isBlank = false

/-- What may stand for a property. -/
def PlainPredicate (iri : String) : Prop := PlainIri iri.toList ∧ iri ≠ rdf "nil"

/-- A fact about a record that survives being written. -/
structure PlainFact (t : Triple) : Prop where
  subject : ∃ id, t.subject = node id
  predicate : ∃ iri, t.predicate = .iri iri ∧ PlainPredicate iri
  object : Plain t.object

/-! ### The vocabulary -/

/-- No property of these vocabularies is taken for the empty collection. -/
theorem plainPredicate_append {ns name : String}
    (listed : ns ∈ [Namespace.repo, Namespace.foaf, Namespace.prov, Namespace.xsd]) :
    PlainPredicate (ns ++ name) ↔ PlainIri name.toList := by
  have plain : PlainIri ns.toList := by
    revert listed
    revert ns
    decide
  have other : ns ++ name ≠ rdf "nil" := by
    intro same
    have chars := congrArg String.toList same
    simp only [List.mem_cons, List.not_mem_nil, or_false] at listed
    rcases listed with rfl | rfl | rfl | rfl <;>
      simp [rdf, Namespace.repo, Namespace.foaf, Namespace.prov, Namespace.xsd, Namespace.rdf] at chars
  rw [PlainPredicate, plainIri_append, and_iff_left other, and_iff_right plain]

@[simp] theorem plainPredicate_repo {name : String} :
    PlainPredicate (repo name) ↔ PlainIri name.toList := plainPredicate_append (by simp)

@[simp] theorem plainPredicate_foaf {name : String} :
    PlainPredicate (foaf name) ↔ PlainIri name.toList := plainPredicate_append (by simp)

@[simp] theorem plainPredicate_prov {name : String} :
    PlainPredicate (prov name) ↔ PlainIri name.toList := plainPredicate_append (by simp)

@[simp] theorem plainPredicate_xsd {name : String} :
    PlainPredicate (xsd name) ↔ PlainIri name.toList := plainPredicate_append (by simp)

theorem plainPredicate_type : PlainPredicate (rdf "type") := by
  refine ⟨by decide, fun same => ?_⟩
  have names := (String.append_right_inj _).mp same
  revert names
  decide

/-! ### Terms -/

@[simp] theorem plain_node (id : String) : Plain (node id) := ⟨plainIri_entityIri id, rfl⟩

theorem plain_typed {datatype : String} (plain : PlainPredicate datatype) (lexical : String) :
    Plain (.typed lexical datatype) :=
  ⟨⟨plain.1, plain.2, nofun⟩, rfl⟩

@[simp] theorem plain_string (s : String) : Plain (.string s) := plain_typed (by simp +decide) s

@[simp] theorem plain_count (n : Nat) : Plain (count n) := plain_typed (by simp +decide) _

@[simp] theorem plain_decimal (x : Float) : Plain (.decimal x) := plain_typed (by simp +decide) _

@[simp] theorem plain_dateTime (s : String) : Plain (.dateTime s) := plain_typed (by simp +decide) s

/-! ### Facts -/

@[simp] theorem plainFact_fact {id predicate : String} {object : Term} :
    PlainFact (fact (node id) predicate object) ↔ PlainPredicate predicate ∧ Plain object :=
  ⟨fun ⟨_, ⟨_, same, plain⟩, object⟩ => ⟨Term.iri.inj same ▸ plain, object⟩,
    fun ⟨plain, object⟩ => ⟨⟨id, rfl⟩, ⟨predicate, rfl, plain⟩, object⟩⟩

@[simp] theorem plainFact_typeFact {id type : String} (plain : PlainPredicate type) :
    PlainFact (typeFact (node id) type) :=
  plainFact_fact.mpr ⟨plainPredicate_type, plain.1, rfl⟩

@[simp] theorem forall_mem_fact? {α : Type} {P : Triple → Prop} {s : Term} {predicate : String}
    {term : α → Term} {a? : Option α} :
    (∀ t ∈ fact? s predicate term a?, P t) ↔ ∀ a ∈ a?, P (fact s predicate (term a)) := by
  cases a? <;> simp [fact?]

theorem plain_projectFacts (p : Project) : ∀ t ∈ projectFacts p, PlainFact t := by
  unfold projectFacts
  cases p.analyzedAt <;> simp +decide [or_imp, forall_and]

theorem plain_fileFacts (f : File) : ∀ t ∈ fileFacts f, PlainFact t := by
  simp +decide [fileFacts, or_imp, forall_and]

theorem plain_moduleFacts (m : Module) : ∀ t ∈ moduleFacts m, PlainFact t := by
  simp +decide [moduleFacts, or_imp, forall_and]

theorem plain_personFacts (p : Person) : ∀ t ∈ personFacts p, PlainFact t := by
  unfold personFacts
  split <;> simp +decide [or_imp, forall_and]

theorem plain_commitFacts (c : Commit) : ∀ t ∈ commitFacts c, PlainFact t := by
  simp +decide [commitFacts, or_imp, forall_and]

theorem plain_issueFacts (i : Issue) : ∀ t ∈ issueFacts i, PlainFact t := by
  unfold issueFacts
  split <;> simp +decide [or_imp, forall_and]

theorem plain_couplingFacts (pair : UnorderedPair) (weight : Nat) :
    ∀ t ∈ couplingFacts pair weight, PlainFact t := by
  simp +decide [couplingFacts, couplingNode, or_imp, forall_and]

theorem plain_dependencyFacts (d : Dependency) : ∀ t ∈ dependencyFacts d, PlainFact t := by
  simp +decide [dependencyFacts, dependencyNode, or_imp, forall_and]

theorem plain_parts {α : Type} {p : Project} {predicate : String} {nodeOf : α → Term}
    {facts : α → List Triple} {records : List α} (plain : PlainIri predicate.toList)
    (named : ∀ r, Plain (nodeOf r)) (each : ∀ r, ∀ t ∈ facts r, PlainFact t) :
    ∀ t ∈ parts p (repo predicate) nodeOf facts records, PlainFact t := by
  simp only [parts, List.forall_mem_flatMap, List.forall_mem_cons]
  exact fun r _ => ⟨plainFact_fact.mpr ⟨plainPredicate_repo.mpr plain, named r⟩, each r⟩

/-- Every fact of a project survives being written. -/
theorem plain_facts (p : Project) : ∀ t ∈ facts p, PlainFact t := by
  simp only [facts, List.forall_mem_append]
  exact ⟨⟨⟨⟨⟨⟨⟨plain_projectFacts p,
    plain_parts (by decide) (fun f => plain_node f.id) plain_fileFacts⟩,
    plain_parts (by decide) (fun m => plain_node m.id) plain_moduleFacts⟩,
    plain_parts (by decide) (fun c => plain_node c.id) plain_personFacts⟩,
    plain_parts (by decide) (fun c => plain_node c.id) plain_commitFacts⟩,
    plain_parts (by decide) (fun i => plain_node i.id) plain_issueFacts⟩,
    plain_parts (by decide) (fun _ => plain_node _) fun e => plain_couplingFacts e.1 e.2⟩,
    plain_parts (by decide) (fun _ => plain_node _) plain_dependencyFacts⟩

/-! ### The graph -/

variable {p : Project}

theorem mem_graph {t : Triple} : t ∈ graph p ↔ t ∈ facts p := by
  have none : t ∉ standardPrefixes.foldl (fun g pre => g.setPrefix pre.1 pre.2) (∅ : Graph) :=
    Graph.not_mem_empty t
  rw [graph, Graph.mem_insertMany, or_iff_left none]

theorem plainFact_of_mem {t : Triple} (held : t ∈ graph p) : PlainFact t :=
  plain_facts p t (mem_graph.mp held)

theorem plainPrefixes_graph (p : Project) : PlainPrefixes (graph p).prefixes := by
  intro name iri found
  rw [graph, Graph.prefixes_insertMany, Graph.prefixes_foldl_setPrefix] at found
  have listed : (name, iri) ∈ standardPrefixes := SortedMap.mem_of_get?_ofList found
  exact plain_standardPrefixes _ listed

theorem writable_graph (p : Project) : Writable (graph p) where
  prefixes := plainPrefixes_graph p
  subjects t held := by
    obtain ⟨id, named⟩ := (plainFact_of_mem held).subject
    rw [named]
    exact ⟨plainIri_entityIri id, rfl⟩
  predicates t held := (plainFact_of_mem held).predicate
  objects t held := (plainFact_of_mem held).object.1

theorem PlainFact.rename {t : Triple} (plain : PlainFact t) (f : String → String) :
    t.rename f = t := by
  obtain ⟨id, subject⟩ := plain.subject
  obtain ⟨iri, predicate, -⟩ := plain.predicate
  obtain ⟨s, p, o⟩ := t
  obtain rfl : s = node id := subject
  obtain rfl : p = .iri iri := predicate
  rw [Triple.rename, Term.rename_of_not_isBlank rfl, Term.rename_of_not_isBlank rfl,
    Term.rename_of_not_isBlank plain.object.2]

/-- The report in Turtle reads back as the prefixes and triples of the project, with no node
renamed, and the gate decides on it as on the graph of the project. -/
theorem read_render (p : Project) (source : String) :
    ∃ g, Turtle.read (render p .turtle) source = .ok g ∧ g.prefixes = (graph p).prefixes ∧
      (∀ t, t ∈ g ↔ t ∈ graph p) ∧
      ∀ v strict, Gate.evaluate g v strict = Gate.evaluate (graph p) v strict := by
  obtain ⟨s, read, known⟩ := knows_written (writable_graph p) source
  have same (t : Triple) : t ∈ s.graph ↔ t ∈ graph p := by
    rw [known.held]
    constructor
    · rintro ⟨u, held, rfl⟩
      rw [mem_triplesAbout] at held
      rwa [(plainFact_of_mem held).rename]
    · intro held
      exact ⟨t, mem_triplesAbout.mpr held, ((plainFact_of_mem held).rename _).symm⟩
  exact ⟨s.graph, read, known.kept, same, Gate.evaluate_congr same⟩

end RepoAudit.Report
