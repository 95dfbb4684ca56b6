import RepoAudit.Proofs.Turtle.Agreement
import RepoAudit.Shacl.Validator

/-!
# Blank nodes of one document

A document that is read into a graph has nodes of its own: they are made behind those of the graph,
which keeps its triples. Whether the document is accepted does not depend on the graph.
-/

namespace RepoAudit.Rdf

/-- The graph's counter has passed the number of every blank node. -/
def Graph.Numbered (g : Graph) : Prop :=
  ∀ t ∈ g, ∀ label, t.Mentions label → ∃ n ≤ g.lastBlank, label = s!"b{n}"

namespace Turtle

theorem ReadTriple.mentions {n : Nat} {t : Triple} (read : ReadTriple n t) {label : String}
    (mentions : t.Mentions label) : ∃ i, 1 ≤ i ∧ i ≤ n ∧ label = s!"b{i}" := by
  have node {u : Term} (read : ReadTerm n u) (same : u = .blank label) :
      ∃ i, 1 ≤ i ∧ i ≤ n ∧ label = s!"b{i}" := by
    subst same
    exact read
  rcases mentions with subject | predicate | object
  · exact node read.subject subject
  · obtain ⟨iri, named⟩ := read.predicate
    rw [named] at predicate
    cases predicate
  · exact node read.object object

/-- `h` holds the triples of `g` and those of the document that was read as `T`, whose nodes have
moved behind those of `g`. -/
structure Joined (g T h : Graph) : Prop where
  held : ∀ t, t ∈ h ↔ t ∈ g ∨ ∃ u ∈ T, t = u.rename (later g.lastBlank)
  moved : ∀ u ∈ T, ∀ label, u.Mentions label → ∃ i, 1 ≤ i ∧ i ≤ T.lastBlank ∧ label = s!"b{i}" ∧
    later g.lastBlank label = s!"b{g.lastBlank + i}"
  apart : ∀ u ∈ T, ∀ label, u.Mentions label → ∀ t ∈ g, ¬ t.Mentions (later g.lastBlank label)
  count : h.lastBlank = g.lastBlank + T.lastBlank
  numbered : h.Numbered

variable {g h T : Graph} {text source : String}

theorem Continues.joined (continues : Continues g T h) (numbered : g.Numbered) : Joined g T h := by
  have moved : ∀ u ∈ T, ∀ label, u.Mentions label → ∃ i, 1 ≤ i ∧ i ≤ T.lastBlank ∧
      label = s!"b{i}" ∧ later g.lastBlank label = s!"b{g.lastBlank + i}" := by
    intro u member label mentions
    obtain ⟨i, first, last, rfl⟩ := (continues.read u member).mentions mentions
    exact ⟨i, first, last, rfl, later_numbered g.lastBlank i⟩
  refine ⟨continues.held, moved, ?_, continues.count, ?_⟩
  · intro u member label mentions t known mentions'
    obtain ⟨i, first, -, -, renamed⟩ := moved u member label mentions
    obtain ⟨n, old, same⟩ := numbered t known _ mentions'
    have number : g.lastBlank + i = n :=
      fresh_injective (congrArg Term.blank (renamed.symm.trans same))
    omega
  · intro t member label mentions
    rw [continues.count]
    rcases (continues.held t).mp member with known | ⟨u, new, rfl⟩
    · obtain ⟨n, old, same⟩ := numbered t known label mentions
      exact ⟨n, by omega, same⟩
    · obtain ⟨old, mentioned, rfl⟩ := Triple.mentions_rename.mp mentions
      obtain ⟨i, -, last, -, renamed⟩ := moved u new old mentioned
      exact ⟨g.lastBlank + i, by omega, renamed⟩

theorem readInto_of_read (accepted : read text source = .ok T) :
    readInto ∅ text source = (none, T) := by
  unfold read at accepted
  split at accepted
  · rename_i result
    rw [result, Except.ok.inj accepted]
  · cases accepted

theorem read_of_readInto (accepted : (readInto ∅ text source).1 = none) :
    read text source = .ok (readInto ∅ text source).2 := by
  unfold read
  split
  · rename_i result
    rw [result]
  · rename_i result
    rw [result] at accepted
    cases accepted

theorem refused_of_readInto (refused : (readInto ∅ text source).1 ≠ none) :
    ∃ e, read text source = .error e := by
  unfold read
  split
  · rename_i result
    rw [result] at refused
    exact absurd rfl refused
  · exact ⟨_, rfl⟩

/-- A document is accepted or refused, with the same error, whatever the graph that it is read into;
if it is accepted, its triples come to stand beside those of the graph with nodes of their own. -/
theorem readInto_scoped (numbered : g.Numbered) (text source : String) :
    (readInto g text source).1 = (readInto ∅ text source).1 ∧
    (∀ declared, let other := readInto { g with prefixes := declared } text source
      other.1 = (readInto g text source).1 ∧ ∀ t, t ∈ other.2 ↔ t ∈ (readInto g text source).2) ∧
    ∀ T, read text source = .ok T → ∃ h, readInto g text source = (none, h) ∧ Joined g T h := by
  obtain ⟨outcome, continues⟩ := readInto_continues g text source
  refine ⟨outcome, fun declared => ?_, fun T accepted => ?_⟩
  · obtain ⟨outcome', continues'⟩ := readInto_continues { g with prefixes := declared } text source
    exact ⟨outcome'.trans outcome.symm, fun t => (continues'.held t).trans (continues.held t).symm⟩
  · rw [readInto_of_read accepted] at outcome continues
    exact ⟨(readInto g text source).2, Prod.ext outcome rfl, continues.joined numbered⟩

/-- A graph with one node that stands in every place of its triple. -/
def knot : Graph := (Graph.blank ∅).2.insert ⟨.blank "b1", .blank "b1", .blank "b1"⟩

theorem readInto_knot : knot.Numbered ∧ ∃ T,
    read "_:b1 <urn:p> [] ." "nodes" = .ok T ∧
      ∃ h, readInto knot "_:b1 <urn:p> [] ." "nodes" = (none, h) ∧ Joined knot T h := by
  have numbered : knot.Numbered := by
    intro t member label mentions
    rcases Graph.mem_insert.mp member with rfl | none
    · have same : label = "b1" := by simpa [Triple.Mentions, eq_comm] using mentions
      exact ⟨1, by decide +kernel, same⟩
    · exact absurd none (Graph.not_mem_empty t)
  have accepted : (readInto ∅ "_:b1 <urn:p> [] ." "nodes").1 = none := by decide +kernel
  have read := read_of_readInto accepted
  exact ⟨numbered, _, read, (readInto_scoped numbered _ _).2.2 _ read⟩

/-! ### Documents one after the other -/

theorem numbered_empty : (∅ : Graph).Numbered :=
  fun t member => absurd member (Graph.not_mem_empty t)

theorem numbered_readInto (numbered : g.Numbered) (text source : String) :
    (readInto g text source).2.Numbered :=
  ((readInto_continues g text source).2.joined numbered).numbered

end Turtle
end RepoAudit.Rdf

namespace RepoAudit.Shacl

open Rdf

/-- No two shape documents share a node: each was read behind those before it. -/
theorem Validator.numbered_ofDocuments {docs : List (String × String)} {v : Validator}
    (accepted : ofDocuments docs = .ok v) : v.shapesGraph.Numbered := by
  have documents {step : Graph → String × String → Except Failure Graph}
      (kept : ∀ g doc h, g.Numbered → step g doc = .ok h → h.Numbered) :
      ∀ (docs : List (String × String)) {g h : Graph}, g.Numbered →
        docs.foldlM step g = .ok h → h.Numbered := by
    intro docs
    induction docs with
    | nil =>
      intro g h numbered read
      exact Except.ok.inj read ▸ numbered
    | cons doc rest ih =>
      intro g h numbered read
      rw [List.foldlM_cons] at read
      cases first : step g doc with
      | error e =>
        rw [first] at read
        cases read
      | ok g' =>
        rw [first] at read
        exact ih (kept g doc g' numbered first) read
  unfold ofDocuments at accepted
  simp only [bind, Except.bind] at accepted
  split at accepted
  · cases accepted
  · rename_i g read
    have numbered : g.Numbered := by
      refine documents (fun g doc h numbered read => ?_) docs Turtle.numbered_empty read
      have numbered' := Turtle.numbered_readInto numbered doc.2 doc.1
      generalize Turtle.readInto g doc.2 doc.1 = outcome at read numbered'
      obtain ⟨_ | e, g'⟩ := outcome
      · exact Except.ok.inj read ▸ numbered'
      · cases read
    unfold ofGraph at accepted
    split at accepted
    · rw [← Except.ok.inj accepted]
      exact numbered
    · cases accepted

end RepoAudit.Shacl
