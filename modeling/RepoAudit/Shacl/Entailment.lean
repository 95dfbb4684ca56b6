import RepoAudit.Rdf.Graph

/-!
# Entailment along hierarchies

What a graph entails by its hierarchies of properties and of classes: a statement with a property
also holds with every property above it, and an instance of a class is one of every class above.
-/

namespace RepoAudit.Shacl

open Rdf

/-- The terms directly above each term. -/
abbrev Hierarchy := SortedMap Term (SortedSet Term)

namespace Hierarchy

def parents (h : Hierarchy) (t : Term) : List Term := ((h.get? t).getD ∅).toList

/-- The terms above a term, without itself. -/
def above (h : Hierarchy) (t : Term) : SortedSet Term :=
  (SortedSet.ofList (reachable h.parents (h.values.flatMap (·.toList)) (h.parents t))).erase t

/-- The terms above each term. -/
def closure (h : Hierarchy) : Hierarchy := h.mapValues fun t _ => above h t

/-- The hierarchy that graphs state by a predicate. -/
def ofGraphs (graphs : List Graph) (predicate : String) : Hierarchy :=
  let p := Term.iri predicate
  let edges := graphs.flatMap fun g =>
    (g.subjectsWith p).toList.flatMap fun low => (g.objects low p).map fun high => (low, high)
  edges.foldl (fun h (low, high) =>
    if low = high then h
    else h.alter low fun s => some ((s.getD ∅).insert high)) ∅

end Hierarchy

/-- The statements that hold by the hierarchy of properties. -/
def liftedStatements (properties : Hierarchy) (g : Graph) : List Triple :=
  g.triples.flatMap fun t =>
    (properties.parents t.predicate).map fun p => ⟨t.subject, p, t.object⟩

/-- The types that hold by the hierarchy of classes. -/
def liftedTypes (classes : Hierarchy) (g : Graph) : List Triple :=
  let type := Term.iri (rdf "type")
  (g.triples.filter (·.predicate = type)).flatMap fun t =>
    (classes.parents t.object).map fun c => ⟨t.subject, type, c⟩

/-- Adds what follows by the hierarchies of a graph and of `ontologies`. -/
def entail (g : Graph) (ontologies : List Graph) : Graph :=
  let sources := g :: ontologies
  let properties := (Hierarchy.ofGraphs sources (rdfs "subPropertyOf")).closure
  let classes := (Hierarchy.ofGraphs sources (rdfs "subClassOf")).closure
  let g := g.insertMany (liftedStatements properties g)
  g.insertMany (liftedTypes classes g)

/-- The graph with what it entails, and the number of triples that this adds. -/
def entailCounted (g : Graph) (ontologies : List Graph) : Graph × Nat :=
  let h := entail g ontologies
  (h, h.size - g.size)

end RepoAudit.Shacl
