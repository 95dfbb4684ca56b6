import RepoAudit.Rdf.Graph
import RepoAudit.Shacl.Datatype
import RepoAudit.Shacl.Shape

/-!
# Validation

What fails when a data graph is checked against shapes: one finding for each count or expected
value that is missed, and one for each value that fails any other constraint.
-/

namespace RepoAudit.Shacl

open Rdf

/-! ### Classes -/

/-- A class and every class below it. -/
def subclasses (g : Graph) (c : Term) : List Term :=
  let sub := Term.iri (rdfs "subClassOf")
  reachable (g.subjects sub) (g.subjectsWith sub).toList [c]

/-- The nodes whose type is a class or a class below it. -/
def instancesOf (g : Graph) (c : Term) : SortedSet Term :=
  .ofList ((subclasses g c).flatMap (g.subjects (.iri (rdf "type"))))

/-- Whether a type of a node is a class or leads up to it. -/
def isInstance (g : Graph) (node c : Term) : Bool :=
  let sub := Term.iri (rdfs "subClassOf")
  (reachable (g.objects · sub) (g.objectsWith sub).toList
    (g.objects node (.iri (rdf "type")))).contains c

/-! ### Focus nodes -/

def Target.nodes (g : Graph) : Target → List Term
  | .ofClass c => (instancesOf g c).toList
  | .node n => [n]
  | .subjectsOf p => (g.subjectsWith p).toList
  | .objectsOf p => (g.objectsWith p).toList

/-- The nodes that the targets of a shape select. -/
def focusNodes (g : Graph) (s : Shape) : SortedSet Term :=
  .ofList (s.targets.flatMap (·.nodes g))

/-! ### Constraints -/

/-- A constraint of a shape that fails for a focus node, and the value at fault if it is one. -/
structure Finding where
  shape : Shape
  focus : Term
  value : Option Term
  constraint : Constraint
  message : String

/-- Whether the order of a value and a bound is one of `accepted`. -/
def inRange (value bound : Term) (accepted : List Ordering) : Bool :=
  match compareValues value bound with
  | some o => accepted.contains o
  | none => false

namespace Constraint

/-- Whether one value satisfies a constraint; those on all values together hold of each. -/
def admits (g : Graph) (value : Term) : Constraint → Bool
  | .ofClass c => isInstance g value c
  | .datatype iri => hasDatatype value iri
  | .nodeKind kind _ => kind.admits value
  | .minInclusive b => inRange value b [.gt, .eq]
  | .maxInclusive b => inRange value b [.lt, .eq]
  | .minExclusive b => inRange value b [.gt]
  | .maxExclusive b => inRange value b [.lt]
  | .minLength n => (length? value).any (n ≤ ·)
  | .maxLength n => (length? value).any (· ≤ n)
  | .pattern p _ => !value.isBlank && p.isMatch value.lexical.toList
  | .isIn allowed => allowed.contains value
  | .minCount _ => true
  | .maxCount _ => true
  | .hasValue _ => true

/-- Whether the values taken together satisfy a constraint; those on single values do not look at
them together. -/
def admitsAll (values : List Term) : Constraint → Bool
  | .minCount n => n ≤ values.length
  | .maxCount n => values.length ≤ n
  | .hasValue t => values.contains t
  | _ => true

/-- The wording of a failure. -/
def failure : Constraint → String
  | .ofClass c => s!"Value does not have class {c.shown}"
  | .datatype iri => s!"Value does not have datatype <{iri}>"
  | .nodeKind _ iri => s!"Value does not have node kind {iri.shown}"
  | .minCount n => s!"Less than {n} values"
  | .maxCount n => s!"More than {n} values"
  | .minInclusive b => s!"Value is not >= {b.lexical}"
  | .maxInclusive b => s!"Value is not <= {b.lexical}"
  | .minExclusive b => s!"Value is not > {b.lexical}"
  | .maxExclusive b => s!"Value is not < {b.lexical}"
  | .minLength n => s!"Value has less than {n} characters"
  | .maxLength n => s!"Value has more than {n} characters"
  | .pattern _ source => s!"Value does not match pattern \"{source}\""
  | .isIn _ => "Value is not in the allowed list"
  | .hasValue t => s!"Missing expected value {t.shown}"

/-- The failures of one constraint: of the values together, or of each value on its own. -/
def failures (g : Graph) (values : List Term) (c : Constraint) : List (Option Term) :=
  if c.admitsAll values then (values.filter (!c.admits g ·)).map some else [none]

end Constraint

/-! ### Shapes -/

/-- The values of a shape for a focus node: what its path reaches, or the focus node itself. -/
def Shape.values (g : Graph) (focus : Term) (s : Shape) : List Term :=
  match s.path with
  | some p => p.values g focus
  | none => [focus]

/-- The findings of a shape's own constraints. -/
def ownFindings (g : Graph) (focus : Term) (s : Shape) : List Finding :=
  s.constraints.flatMap fun c =>
    (c.failures g (s.values g focus)).map fun value =>
      ⟨s, focus, value, c, s.message.getD c.failure⟩

mutual

/-- The findings of a shape and of the property shapes attached to it, unless it is
deactivated. -/
def shapeFindings (g : Graph) (focus : Term) : Shape → List Finding
  | .mk id targets path constraints severity message deactivated properties =>
    if deactivated then []
    else
      ownFindings g focus
        (.mk id targets path constraints severity message deactivated properties) ++
        propertyFindings g focus properties

def propertyFindings (g : Graph) (focus : Term) : List Shape → List Finding
  | [] => []
  | s :: rest => shapeFindings g focus s ++ propertyFindings g focus rest

end

/-- Everything that fails, shape by shape and focus node by focus node. -/
def findings (g : Graph) (set : ShapeSet) : List Finding :=
  set.shapes.flatMap fun s =>
    if s.deactivated then []
    else (focusNodes g s).toList.flatMap fun focus => shapeFindings g focus s

end RepoAudit.Shacl
