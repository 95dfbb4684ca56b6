import RepoAudit.Failure
import RepoAudit.Rdf.Turtle.Reader
import RepoAudit.Shacl.BundledShapes
import RepoAudit.Shacl.Compile
import RepoAudit.Shacl.Entailment
import RepoAudit.Shacl.Report

/-!
# Validators

Compiled shapes together with the graph they come from, which also serves as an ontology.
-/

namespace RepoAudit.Shacl

open Rdf

/-- The result of one validation. -/
structure Outcome where
  report : Graph
  conforms : Bool
  violations : List Violation

/-- What a report comes to. -/
def Outcome.ofReport (report : Graph) : Outcome :=
  { report, conforms := Shacl.conforms report, violations := Shacl.violations report }

def Outcome.count (o : Outcome) (s : ResultSeverity) : Nat :=
  (o.violations.filter (·.severity = s)).length

structure Validator where
  shapesGraph : Graph
  shapes : ShapeSet
  /-- The names of the documents that the shapes come from. -/
  sources : List String
  /-- Whether data is completed by entailment before it is checked. -/
  inference : Bool := false

namespace Validator

/-- The validator of a shapes graph. Shapes that contain themselves are never compiled. -/
def ofGraph (g : Graph) (sources : List String) : Except Failure Validator :=
  match ShapeSet.ofGraph g with
  | some shapes => .ok { shapesGraph := g, shapes, sources }
  | none => .error .endlessShapes

/-- The validator with the bundled shapes. -/
def bundled : Except Failure Validator := do
  let g ← (Turtle.read BundledShapes.text BundledShapes.name).mapError .turtle
  ofGraph g [BundledShapes.name]

/-- Reads named documents into one shapes graph. -/
def ofDocuments (docs : List (String × String)) : Except Failure Validator := do
  let g ← docs.foldlM (fun g (name, text) =>
    match Turtle.readInto g text name with
    | (none, g) => .ok g
    | (some e, _) => .error (.turtle e)) (∅ : Graph)
  ofGraph g (docs.map (·.1))

/-- The report on a data graph. -/
def report (v : Validator) (data : Graph) : Graph :=
  let data := if v.inference then entail data [v.shapesGraph] else data
  reportOf (findings data v.shapes)

def validate (v : Validator) (data : Graph) : Outcome := .ofReport (v.report data)

end Validator
end RepoAudit.Shacl
