import RepoAudit.Shacl.Validate

/-!
# Validation reports

A report is a graph with one node for each finding. Results are read back from such a graph, also
from one that was written elsewhere.
-/

namespace RepoAudit.Shacl

open Rdf

/-! ### Writing -/

def reportNode : Term := .blank "report"

/-- The node of the result with number `n`. -/
def resultNode (n : Nat) : Term := .blank s!"r{n}"

/-- The node of the inverse path of the result with number `n`. -/
def pathNode (n : Nat) : Term := .blank s!"p{n}"

/-- The path of the result with number `n`. -/
def Path.node (n : Nat) : Path → Term
  | .predicate p => p
  | .inverse _ => pathNode n

/-- What a report says of the finding with number `n`, by properties. -/
def resultFields (n : Nat) (f : Finding) : List (String × Term) :=
  [(rdf "type", .iri (sh "ValidationResult")),
   (sh "resultSeverity", .iri f.shape.severity.iri),
   (sh "focusNode", f.focus)] ++
  (f.shape.path.map fun p => (sh "resultPath", p.node n)).toList ++
  (f.value.map fun v => (sh "value", v)).toList ++
  [(sh "resultMessage", .string f.message),
   (sh "sourceShape", f.shape.id),
   (sh "sourceConstraintComponent", .iri f.constraint.component)]

/-- What is said of the node of an inverse path. -/
def pathTriples (n : Nat) (f : Finding) : List Triple :=
  match f.shape.path with
  | some (.inverse p) => [⟨pathNode n, .iri (sh "inversePath"), p⟩]
  | _ => []

def resultTriples (n : Nat) (f : Finding) : List Triple :=
  (resultFields n f).map (fun (p, o) => ⟨resultNode n, .iri p, o⟩) ++ pathTriples n f

/-- What a report says of itself, by properties. -/
def reportFields (fs : List Finding) : List (String × Term) :=
  [(rdf "type", .iri (sh "ValidationReport")), (sh "conforms", .boolean fs.isEmpty)] ++
  (fs.zipIdx 1).map fun (_, n) => (sh "result", resultNode n)

/-- The report on some findings, which are numbered from one. -/
def reportOf (fs : List Finding) : Graph :=
  let prefixed : Graph := standardPrefixes.foldl (fun g p => g.setPrefix p.1 p.2) ∅
  prefixed.insertMany ((fs.zipIdx 1).flatMap (fun (f, n) => resultTriples n f) ++
    (reportFields fs).map fun (p, o) => ⟨reportNode, .iri p, o⟩)

/-! ### Reading -/

/-- One result of a report, as text. -/
structure Violation where
  severity : ResultSeverity
  focus : String
  path : Option String
  message : String
  value : Option String
  sourceShape : String
  component : String
deriving DecidableEq, Repr

namespace Violation

/-- The name of the component without its namespace and common ending. -/
def componentName (v : Violation) : String :=
  let name := (v.component.toList.reverse.takeWhile fun c => c != '#' && c != '/').reverse
  String.ofList ((Text.dropEnd? "ConstraintComponent".toList name).getD name)

/-- A result on one line. -/
def shown (v : Violation) : String :=
  s!"[{v.severity.name}] {v.focus}" ++
    (match v.path with
      | some p => " " ++ p
      | none => "") ++
    ": " ++ v.message ++
    (match v.value with
      | some x => s!" (value {x})"
      | none => "")

/-- The graver severity first, then by focus node, path, component and value. -/
def order (a b : Violation) : Ordering :=
  (compare b.severity.rank a.severity.rank).then
    ((compare a.focus b.focus).then ((compare a.path b.path).then
      ((compare a.component b.component).then (compare a.value b.value))))

end Violation

/-- A term of a report as text; an inverse path has a mark in front. -/
def termText (g : Graph) : Term → String
  | .iri s => s
  | .literal l => l.lexical
  | .blank b => match g.object? (.blank b) (.iri (sh "inversePath")) with
    | some p => "^" ++ p.lexical
    | none => (Term.blank b).shown

/-- What a report says of one result. -/
def violationOf (g : Graph) (r : Term) : Violation :=
  let text? (p : String) := (g.object? r (.iri (sh p))).map (termText g)
  { severity := (((g.object? r (.iri (sh "resultSeverity"))).bind Term.iri?).bind
      ResultSeverity.ofIri?).getD .violation
    focus := (text? "focusNode").getD ""
    path := text? "resultPath"
    message := (text? "resultMessage").getD ""
    value := text? "value"
    sourceShape := (text? "sourceShape").getD ""
    component := (text? "sourceConstraintComponent").getD "" }

/-- The results of a report in their order. -/
def violations (g : Graph) : List Violation :=
  ((g.subjects (.iri (rdf "type")) (.iri (sh "ValidationResult"))).map (violationOf g)).mergeSort
    fun a b => (a.order b).isLE

/-- Whether a report says that the data conforms; one that says nothing does not. -/
def conforms (g : Graph) : Bool :=
  ((g.subjects (.iri (rdf "type")) (.iri (sh "ValidationReport"))).findSome? fun r =>
    (g.object? r (.iri (sh "conforms"))).bind Term.bool?).getD false

end RepoAudit.Shacl
