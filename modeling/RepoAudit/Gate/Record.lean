import RepoAudit.Report.Facts
import RepoAudit.Shacl.Validator

/-!
# Results of the gate in the project

The gate checks the graph of a project. A violation always fails the gate, a warning only if it is
strict, and mere information never. The results become issues of the project, in place of those of
an earlier run, and are linked from the files that they are about.
-/

namespace RepoAudit.Gate

open Rdf Shacl

/-! ### Decisions -/

structure Decision where
  passed : Bool
  strict : Bool
  conforms : Bool
  violations : Nat
  warnings : Nat
  infos : Nat
  results : List Violation
  report : Graph

namespace Decision

def ofOutcome (o : Outcome) (strict : Bool) : Decision :=
  let violations := o.count .violation
  let warnings := o.count .warning
  { passed := violations == 0 && (!strict || warnings == 0)
    strict
    conforms := o.conforms
    violations
    warnings
    infos := o.count .info
    results := o.violations
    report := o.report }

/-- The results for which the gate failed. -/
def failures (d : Decision) : List Violation :=
  d.results.filter fun v => match v.severity with
    | .violation => true
    | .warning => d.strict
    | .info => false

end Decision

/-- Checks a data graph and decides on it. -/
def evaluate (data : Graph) (v : Validator) (strict : Bool) : Decision :=
  .ofOutcome (v.validate data) strict

open Project

/-! ### Records of results -/

def severityOf : ResultSeverity → Project.Severity
  | .violation => .high
  | .warning => .medium
  | .info => .info

/-- An IRI without the namespace of reports. -/
def shortName (iri : String) : String :=
  match Text.dropStart? Namespace.repo.toList iri.toList with
  | some name => String.ofList name
  | none => iri

/-- What tells one result from another: its focus, path, component and shape. -/
def resultKey (v : Violation) : String :=
  let parts := [v.focus, v.path.getD "", v.component, v.sourceShape]
  Digest.shortHash ("|".intercalate parts) ++ "/" ++ v.componentName

/-- The file of the project that a result is about. -/
def fileOf? (p : Project) (v : Violation) : Option String :=
  (Report.entityId? v.focus).filter fun key => key.startsWith (fileId "") && p.files.contains key

def titleOf (v : Violation) : String :=
  match v.path with
  | some path => s!"{v.componentName} on {shortName path} of {shortName v.focus}"
  | none => s!"{v.componentName} on {shortName v.focus}"

def descriptionOf (v : Violation) : String :=
  match v.value with
  | some value => s!"{v.message} (value {value})"
  | none => v.message

/-- The issue of a result. -/
def issueOf (p : Project) (v : Violation) : Issue where
  id := issueId .shaclViolation (resultKey v)
  kind := .shaclViolation
  severity := severityOf v.severity
  title := titleOf v
  description := descriptionOf v
  file := fileOf? p v

end RepoAudit.Gate

namespace RepoAudit

/-- The project with the issues and the summary of a decision. -/
def Project.withDecision (p : Project) (d : Gate.Decision) (shapes : List String) : Project :=
  { p.replaceAll .shaclViolation (d.results.map (Gate.issueOf p)) with
    validation := some ⟨d.conforms, d.violations, d.warnings, d.infos, shapes⟩ }

/-- Decides on a project and records the results. -/
def Project.gate (p : Project) (v : Shacl.Validator) (strict : Bool) : Gate.Decision × Project :=
  let d := Gate.evaluate (Report.graph p) v strict
  (d, p.withDecision d v.sources)

end RepoAudit
