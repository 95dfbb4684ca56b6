import RepoAudit.Regex.Reader
import RepoAudit.Shacl.Shape

/-!
# Shapes of a shapes graph

Shapes are the nodes typed as such and the nodes with a target. What a shapes graph says of a
shape is read once; parameters that are not supported are only listed.
-/

namespace RepoAudit.Shacl

open Rdf

/-- Constraint parameters that are known and not evaluated. -/
def unsupported : List String :=
  ["sparql", "node", "and", "or", "not", "xone", "qualifiedValueShape", "closed", "equals",
   "disjoint", "lessThan", "lessThanOrEquals", "uniqueLang", "languageIn"].map sh

/-- A path is a predicate or the inverse of one; no other is supported. -/
def path? (g : Graph) : Term → Option Path
  | .iri p => some (.predicate (.iri p))
  | .blank b => match g.object? (.blank b) (.iri (sh "inversePath")) with
    | some (.iri p) => some (.inverse (.iri p))
    | _ => none
  | .literal _ => none

/-- The flags of a pattern; letters without a meaning are passed over. -/
def patternFlags (letters : String) : Regex.Flags where
  ignoreCase := letters.toList.contains 'i'
  multiLine := letters.toList.contains 'm'
  dotAll := letters.toList.contains 's'
  verbose := letters.toList.contains 'x'

/-- A number rounded towards zero, at most the largest of 64 bits; none if it is below zero. -/
def count? (t : Term) : Option Nat := do
  let x ← t.float?
  if x ≥ 0.0 then some x.toUInt64.toNat else none

/-- What a shapes graph says of one shape. -/
structure Statements where
  graph : Graph
  id : Term

namespace Statements

def all (s : Statements) (parameter : String) : List Term :=
  s.graph.objects s.id (.iri (sh parameter))

def first? (s : Statements) (parameter : String) : Option Term := (s.all parameter).head?

/-- Whether the shape has a type. -/
def isA (s : Statements) (type : String) : Bool :=
  s.graph.contains ⟨s.id, .iri (rdf "type"), .iri type⟩

/-- A shape that is a class as well has its own instances as targets. -/
def targets (s : Statements) : List Target :=
  (s.all "targetClass").map .ofClass ++ (s.all "targetNode").map .node ++
    (s.all "targetSubjectsOf").map .subjectsOf ++ (s.all "targetObjectsOf").map .objectsOf ++
    (if s.isA (rdfs "Class") && s.isA (sh "NodeShape") then [.ofClass s.id] else [])

def path (s : Statements) : Option Path := (s.first? "path").bind (path? s.graph)

def severity (s : Statements) : ResultSeverity :=
  (((s.first? "severity").bind Term.iri?).bind ResultSeverity.ofIri?).getD .violation

def message (s : Statements) : Option String := (s.first? "message").map Term.lexical

def deactivated (s : Statements) : Bool :=
  ((s.first? "deactivated").bind Term.bool?).getD false

def nodeKind? (t : Term) : Option Constraint :=
  (t.iri?.bind NodeKind.ofIri?).map (.nodeKind · t)

def pattern? (s : Statements) (source : Term) : Option Constraint :=
  let flags := ((s.first? "flags").map Term.lexical).getD ""
  (Regex.Pattern.ofText? source.lexical.toList (patternFlags flags)).map
    (.pattern · source.lexical)

/-- The constraints of the shape. Of a parameter with several values only the first counts, except
for `sh:hasValue`; a value that makes no sense states nothing. -/
def constraints (s : Statements) : List Constraint :=
  ((s.first? "class").map .ofClass).toList ++
  (((s.first? "datatype").bind Term.iri?).map .datatype).toList ++
  ((s.first? "nodeKind").bind nodeKind?).toList ++
  (((s.first? "minCount").bind count?).map .minCount).toList ++
  (((s.first? "maxCount").bind count?).map .maxCount).toList ++
  ((s.first? "minInclusive").map .minInclusive).toList ++
  ((s.first? "maxInclusive").map .maxInclusive).toList ++
  ((s.first? "minExclusive").map .minExclusive).toList ++
  ((s.first? "maxExclusive").map .maxExclusive).toList ++
  (((s.first? "minLength").bind count?).map .minLength).toList ++
  (((s.first? "maxLength").bind count?).map .maxLength).toList ++
  ((s.first? "pattern").bind s.pattern?).toList ++
  ((s.first? "in").map fun head => .isIn (s.graph.listItems head)).toList ++
  (s.all "hasValue").map .hasValue

/-- The unsupported parameters of the shape, once for each value. -/
def skipped (s : Statements) : List (Term × String) :=
  (s.graph.properties s.id).filterMap fun (p, _) => do
    let iri ← p.iri?
    if unsupported.contains iri then some (s.id, iri) else none

/-- The shape with some property shapes attached to it. -/
def shape (s : Statements) (properties : List Shape) : Shape :=
  .mk s.id s.targets s.path s.constraints s.severity s.message s.deactivated properties

end Statements

end RepoAudit.Shacl

namespace RepoAudit.Rdf.Graph

open Shacl

/-- Compiles a shape and the property shapes attached to it, with the skipped parameters of all of
them. Every property shape is compiled anew wherever it is attached, and one without a usable path
is left out afterwards. A shape that is attached to itself, directly or through others, has no
result: compiling it never ends. -/
def compileShape (g : Graph) (id : Term) : Option (Shape × List (Term × String)) := do
  let s : Statements := ⟨g, id⟩
  let children ← (s.all "property").mapM fun p => g |>.compileShape p
  return (s.shape ((children.map (·.1)).filter (·.path.isSome)),
    s.skipped ++ children.flatMap (·.2))
partial_fixpoint

end RepoAudit.Rdf.Graph

namespace RepoAudit.Shacl

open Rdf

/-- The nodes that are compiled: those typed as shapes and those with a target. -/
def roots (g : Graph) : SortedSet Term :=
  let typed := ["NodeShape", "PropertyShape"].flatMap fun type =>
    g.subjects (.iri (rdf "type")) (.iri (sh type))
  let targeted := ["targetClass", "targetNode", "targetSubjectsOf", "targetObjectsOf"].flatMap
    fun p => (g.subjectsWith (.iri (sh p))).toList
  .ofList (typed ++ targeted)

namespace ShapeSet

/-- Compiles a shapes graph, if this ends. Shapes without targets are only reached through
`sh:property`. -/
def ofGraph (g : Graph) : Option ShapeSet := do
  let compiled ← (roots g).toList.mapM g.compileShape
  return {
    shapes := (compiled.map (·.1)).filter (!·.targets.isEmpty)
    skipped := compiled.flatMap (·.2) }

end ShapeSet
end RepoAudit.Shacl
