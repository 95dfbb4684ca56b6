import RepoAudit.Proofs.Report.Records

/-!
# Nodes for identifiers

The IRI of an identifier is made of plain characters, and the identifier can be read back from it.
So each node that the graph of a project tells something of stands for one identifier:
`entity_nodes`.
-/

namespace RepoAudit.Report

open Project Rdf

/-! ### Characters -/

theorem isAlphanum_upperDigit : ∀ n < 16, (upperDigit n).isAlphanum = true := by decide

/-- The encoding of a byte is made of letters and digits of ASCII and a few marks. -/
theorem plain_encodeByte (b : UInt8) : ∀ c ∈ encodeByte b,
    c.isAlphanum = true ∨ c ∈ ['-', '_', '.', '~', '/', '%'] := by
  unfold encodeByte
  split
  · rename_i plain
    simp only [isPlainByte, Bool.or_eq_true, beq_iff_eq, or_assoc] at plain
    intro c member
    obtain rfl := List.mem_singleton.mp member
    rcases plain with letter | same | same | same | same | same
    · exact .inl letter
    all_goals
      rw [same]
      exact .inr (by decide)
  · have small := b.toNat_lt
    rw [List.forall_mem_cons, List.forall_mem_cons, List.forall_mem_singleton]
    exact ⟨.inr (by decide), .inl (isAlphanum_upperDigit _ (by omega)),
      .inl (isAlphanum_upperDigit _ (by omega))⟩

theorem plain_entityIri (id : String) : ∃ name, entityIri id = Namespace.repo ++ name ∧
    ∀ c ∈ name.toList, c.isAlphanum = true ∨ c ∈ ['-', '_', '.', '~', '/', '%'] := by
  refine ⟨_, rfl, fun c member => ?_⟩
  rw [String.toList_ofList] at member
  obtain ⟨b, -, member⟩ := List.mem_flatMap.mp member
  exact plain_encodeByte b c member

/-! ### Identifiers -/

/-- An identifier with the mark in front that all identifiers have. -/
def Marked (id : String) : Prop := "repo:".toList <+: id.toList

instance (id : String) : Decidable (Marked id) := inferInstanceAs (Decidable (_ <+: _))

theorem Marked.exists_name {id : String} (marked : Marked id) : ∃ name, id = "repo:" ++ name := by
  obtain ⟨rest, chars⟩ := marked
  refine ⟨String.ofList rest, String.toList_inj.mp ?_⟩
  rw [String.toList_append, String.toList_ofList (l := rest), chars]

theorem entityId?_entityIri {id : String} (marked : Marked id) :
    entityId? (entityIri id) = some id := by
  obtain ⟨name, rfl⟩ := marked.exists_name
  exact entityId?_entityIri_marked name

theorem Marked.eq_of_entityIri {id id' : String} (marked : Marked id) (marked' : Marked id')
    (same : entityIri id = entityIri id') : id = id' := by
  have read := entityId?_entityIri marked
  rw [same, entityId?_entityIri marked'] at read
  exact (Option.some.inj read).symm

/-- All that a graph tells is told of the records of the project. -/
theorem exists_record_of_mem_graph {p : Project} {t : Triple} (held : t ∈ graph p) :
    ∃ r ∈ records p, t.subject = node r.id := by
  rcases record_of_mem_facts (mem_graph.mp held) with ⟨r, listed, stated⟩ | ⟨linked, -⟩
  · exact ⟨r, listed, subject_of_mem r t stated⟩
  · exact ⟨.project p, List.mem_cons_self, linked⟩

/-- An identifier can be read back from its IRI, which is made of plain characters. Different
identifiers have different IRIs, so that whatever a graph tells is told of one of them. -/
theorem entity_nodes :
    (∀ id, Marked id → entityId? (entityIri id) = some id ∧
      ∃ name, entityIri id = Namespace.repo ++ name ∧
        ∀ c ∈ name.toList, c.isAlphanum = true ∨ c ∈ ['-', '_', '.', '~', '/', '%']) ∧
    (∀ id id', Marked id → Marked id' → entityIri id = entityIri id' → id = id') ∧
    ∀ p : Project, (∀ r ∈ records p, Marked r.id) →
      ∀ t ∈ graph p, ∃! id, id ∈ (records p).map Record.id ∧ t.subject = node id := by
  refine ⟨fun id marked => ⟨entityId?_entityIri marked, plain_entityIri id⟩,
    fun _ _ => Marked.eq_of_entityIri, fun p marked t held => ?_⟩
  obtain ⟨r, listed, subject⟩ := exists_record_of_mem_graph held
  refine ⟨r.id, ⟨List.mem_map_of_mem listed, subject⟩, ?_⟩
  rintro id ⟨member, subject'⟩
  obtain ⟨r', listed', rfl⟩ := List.mem_map.mp member
  exact (marked r' listed').eq_of_entityIri (marked r listed)
    (Term.iri.inj (subject'.symm.trans subject))

/-- Paths with escapes in them, with letters of other scripts, and with an escape cut short. -/
def escapes : Project where
  id := "repo:project/100%25"
  files := .ofList (["ünï/日本.py", "a%2Fb", "a/b", "%4"].map fun path => (fileId path, .ofPath path))

theorem entity_nodes_escapes : (records escapes).map Record.id =
      ["repo:project/100%25", "repo:file/%4", "repo:file/a%2Fb", "repo:file/a/b",
        "repo:file/ünï/日本.py"] ∧
    entityId? (entityIri "repo:file/a%2Fb") = some "repo:file/a%2Fb" ∧
    ∀ t ∈ graph escapes,
      ∃! id, id ∈ (records escapes).map Record.id ∧ t.subject = node id := by
  have ids : (records escapes).map Record.id = ["repo:project/100%25", "repo:file/%4",
      "repo:file/a%2Fb", "repo:file/a/b", "repo:file/ünï/日本.py"] := by decide +kernel
  have marked : ∀ id ∈ (records escapes).map Record.id, Marked id := by
    rw [ids]
    decide +kernel
  obtain ⟨read, -, apart⟩ := entity_nodes
  exact ⟨ids, (read _ (by decide +kernel)).1, apart escapes (List.forall_mem_map.mp marked)⟩

end RepoAudit.Report
