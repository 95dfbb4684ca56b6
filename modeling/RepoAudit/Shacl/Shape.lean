import RepoAudit.Rdf.Graph
import RepoAudit.Regex.Pattern

/-!
# Shapes

A shape selects focus nodes by its targets and requires its constraints to hold of the values
that its path reaches from them.
-/

namespace RepoAudit.Shacl

open Rdf

/-- How grave a result is, from the least to the most. -/
inductive ResultSeverity where
  | info
  | warning
  | violation
deriving DecidableEq, Repr, Inhabited

namespace ResultSeverity

def rank : ResultSeverity → Nat
  | .info => 0
  | .warning => 1
  | .violation => 2

def name : ResultSeverity → String
  | .info => "info"
  | .warning => "warning"
  | .violation => "violation"

def iri : ResultSeverity → String
  | .info => sh "Info"
  | .warning => sh "Warning"
  | .violation => sh "Violation"

def ofIri? (iri : String) : Option ResultSeverity :=
  if iri == sh "Violation" then some .violation
  else if iri == sh "Warning" then some .warning
  else if iri == sh "Info" then some .info
  else none

end ResultSeverity

inductive Target where
  /-- The instances of a class. -/
  | ofClass (c : Term)
  | node (n : Term)
  | subjectsOf (p : Term)
  | objectsOf (p : Term)
deriving DecidableEq, Repr

inductive Path where
  | predicate (p : Term)
  | inverse (p : Term)
deriving DecidableEq, Repr

/-- The values that a path reaches from a focus node. -/
def Path.values (g : Graph) (focus : Term) : Path → List Term
  | .predicate p => g.objects focus p
  | .inverse p => g.subjects p focus

inductive NodeKind where
  | iri
  | blankNode
  | literal
  | blankNodeOrIri
  | blankNodeOrLiteral
  | iriOrLiteral
deriving DecidableEq, Repr

namespace NodeKind

def all : List (String × NodeKind) :=
  [("IRI", .iri), ("BlankNode", .blankNode), ("Literal", .literal),
   ("BlankNodeOrIRI", .blankNodeOrIri), ("BlankNodeOrLiteral", .blankNodeOrLiteral),
   ("IRIOrLiteral", .iriOrLiteral)]

def ofIri? (iri : String) : Option NodeKind :=
  (all.find? fun e => sh e.1 == iri).map (·.2)

def admits (k : NodeKind) (t : Term) : Bool :=
  match k with
  | .iri => t.isIri
  | .blankNode => t.isBlank
  | .literal => t.isLiteral
  | .blankNodeOrIri => !t.isLiteral
  | .blankNodeOrLiteral => !t.isIri
  | .iriOrLiteral => !t.isBlank

end NodeKind

/-- One requirement on the values of a shape. -/
inductive Constraint where
  | ofClass (c : Term)
  | datatype (iri : String)
  | nodeKind (kind : NodeKind) (iri : Term)
  | minCount (n : Nat)
  | maxCount (n : Nat)
  | minInclusive (bound : Term)
  | maxInclusive (bound : Term)
  | minExclusive (bound : Term)
  | maxExclusive (bound : Term)
  | minLength (n : Nat)
  | maxLength (n : Nat)
  | pattern (p : Regex.Pattern) (source : String)
  | isIn (allowed : List Term)
  | hasValue (t : Term)
deriving DecidableEq, Repr

namespace Constraint

/-- The name of the parameter that states the constraint. -/
def parameter : Constraint → String
  | .ofClass _ => "class"
  | .datatype _ => "datatype"
  | .nodeKind .. => "nodeKind"
  | .minCount _ => "minCount"
  | .maxCount _ => "maxCount"
  | .minInclusive _ => "minInclusive"
  | .maxInclusive _ => "maxInclusive"
  | .minExclusive _ => "minExclusive"
  | .maxExclusive _ => "maxExclusive"
  | .minLength _ => "minLength"
  | .maxLength _ => "maxLength"
  | .pattern .. => "pattern"
  | .isIn _ => "in"
  | .hasValue _ => "hasValue"

def component (c : Constraint) : String := componentOf c.parameter

end Constraint

/-- A shape with the property shapes attached to it. -/
inductive Shape where
  | mk (id : Term) (targets : List Target) (path : Option Path) (constraints : List Constraint)
    (severity : ResultSeverity) (message : Option String) (deactivated : Bool)
    (properties : List Shape)
deriving Repr

namespace Shape

def id : Shape → Term
  | mk id .. => id

def targets : Shape → List Target
  | mk _ targets .. => targets

def path : Shape → Option Path
  | mk _ _ path .. => path

def constraints : Shape → List Constraint
  | mk _ _ _ constraints .. => constraints

def severity : Shape → ResultSeverity
  | mk _ _ _ _ severity .. => severity

/-- A message that stands in for the one of the constraint. -/
def message : Shape → Option String
  | mk _ _ _ _ _ message .. => message

def deactivated : Shape → Bool
  | mk _ _ _ _ _ _ deactivated _ => deactivated

def properties : Shape → List Shape
  | mk _ _ _ _ _ _ _ properties => properties

end Shape

/-- The shapes of a shapes graph that have targets, and the parameters it uses that are not
supported, each with its shape. -/
structure ShapeSet where
  shapes : List Shape := []
  skipped : List (Term × String) := []
deriving Repr

end RepoAudit.Shacl
