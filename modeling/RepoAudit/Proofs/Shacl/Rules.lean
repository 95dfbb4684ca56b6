import RepoAudit.Proofs.Shacl.Validation
import RepoAudit.Proofs.Turtle.Growth

/-!
# Rules

A rule says what is required of the nodes of a class, property by property. Rules that are written
as node shapes with property shapes in brackets are compiled to shapes that require no more than the
rules do.
-/

namespace RepoAudit.Shacl

open Rdf Turtle

/-! ### Rules and how they are written -/

/-- One thing that is required, as a parameter of a shape. -/
structure Parameter where
  name : String
  value : Value

/-- What is required of the values of a property. -/
structure Property where
  pre : String
  part : String
  parameters : List Parameter

/-- What is required of the nodes of a class. -/
structure Rule where
  name : String
  type : String
  properties : List Property

/-- The namespaces of the prefixes with which rules are written. -/
def namespaces : String → String
  | "sh" => Namespace.sh
  | "xsd" => Namespace.xsd
  | "foaf" => Namespace.foaf
  | "repo" => Namespace.repo
  | _ => ""

def Parameter.line (q : Parameter) : Line := ⟨"sh", q.name, q.value⟩

/-- The lines of a property in brackets. -/
def Property.lines (p : Property) : List Line :=
  ⟨"sh", "path", .name p.pre p.part⟩ :: p.parameters.map Parameter.line

/-- The IRI of a property. -/
def Property.path (p : Property) : Term := .iri (namespaces p.pre ++ p.part)

def Rule.node (r : Rule) : Term := .iri (repo r.name)

def Rule.entries (r : Rule) : List Entry :=
  .type "sh" "NodeShape" :: .line ⟨"sh", "targetClass", .name "repo" r.type⟩ ::
    r.properties.map fun p => .block "sh" "property" p.lines

/-- The document in which rules are written. -/
def documentOf (prefixes : List (String × String)) (rules : List Rule) : Document :=
  ⟨prefixes, rules.map fun r => ⟨"repo", r.name, r.entries⟩⟩

/-- The names in a value. -/
def names : Value → List (String × String)
  | .name pre part => [(pre, part)]
  | _ => []

/-- The names with which a rule is written. -/
def Rule.names (r : Rule) : List (String × String) :=
  ("sh", "NodeShape") :: ("sh", "targetClass") :: ("sh", "property") :: ("sh", "path") ::
    ("repo", r.name) :: ("repo", r.type) :: r.properties.flatMap fun p =>
      (p.pre, p.part) :: p.parameters.flatMap fun q => ("sh", q.name) :: Shacl.names q.value

/-- A value that is no number, or one that is read as it is. -/
def Numeral : Value → Prop
  | .number digits => readsAsInteger digits = true ∨ readsAsDecimal digits = true
  | _ => True

instance : (v : Value) → Decidable (Numeral v)
  | .number _ => inferInstanceAs (Decidable (_ ∨ _))
  | .name _ _ => .isTrue trivial
  | .quoted _ => .isTrue trivial
  | .list _ => .isTrue trivial

/-- Rules can be read again if their names can. -/
theorem plain_rules {prefixes : List (String × String)} {rules : List Rule}
    (declared : ∀ e ∈ prefixes, PlainPrefix e.1.toList ∧ PlainIri e.2.toList)
    (named : ∀ r ∈ rules, ∀ n ∈ r.names,
      PlainName (documentOf prefixes rules).declared namespaces n.1 n.2)
    (numerals : ∀ r ∈ rules, ∀ p ∈ r.properties, ∀ q ∈ p.parameters, Numeral q.value) :
    (documentOf prefixes rules).Plain namespaces := by
  refine ⟨declared, fun paragraph listed => ?_⟩
  obtain ⟨r, member, rfl⟩ := List.mem_map.mp listed
  have name {n : String × String} (mem : n ∈ r.names) := named r member n mem
  refine ⟨name (n := ("repo", r.name)) (by simp [Rule.names]), by simp [Rule.entries],
    fun e entry => ?_⟩
  rcases List.mem_cons.mp entry with rfl | entry
  · exact name (n := ("sh", "NodeShape")) (by simp [Rule.names])
  rcases List.mem_cons.mp entry with rfl | entry
  · exact ⟨name (n := ("sh", "targetClass")) (by simp [Rule.names]),
      name (n := ("repo", r.type)) (by simp [Rule.names])⟩
  obtain ⟨p, property, rfl⟩ := List.mem_map.mp entry
  refine ⟨name (n := ("sh", "property")) (by simp [Rule.names]), by simp [Property.lines],
    fun l line => ?_⟩
  rcases List.mem_cons.mp line with rfl | line
  · refine ⟨name (n := ("sh", "path")) (by simp [Rule.names]),
      name (n := (p.pre, p.part)) ?_⟩
    simp only [Rule.names, List.mem_cons, List.mem_flatMap]
    grind
  · obtain ⟨q, parameter, rfl⟩ := List.mem_map.mp line
    have inside {n : String × String} (mem : n ∈ ("sh", q.name) :: names q.value) : n ∈ r.names := by
      simp only [Rule.names, List.mem_cons, List.mem_flatMap] at mem ⊢
      grind
    refine ⟨name (inside (.head _)), ?_⟩
    have numeral := numerals r member p property q parameter
    cases value : q.value with
    | name pre part =>
      rw [Parameter.line, value]
      exact name (n := (pre, part)) (inside (by simp [value, names]))
    | number digits =>
      rw [Parameter.line, value]
      rw [value] at numeral
      exact numeral
    | _ =>
      rw [Parameter.line, value]
      trivial

/-! ### Constraints -/

/-- The term that a value is read as, unless it is a collection. -/
def term? : Value → Option Term
  | .name pre part => some (.iri (namespaces pre ++ part))
  | .number digits =>
    some (.typed digits (xsd (if readsAsInteger digits then "integer" else "decimal")))
  | .quoted text => some (.string text)
  | .list _ => none

/-- The constraint that a parameter with a term states. -/
def constraintOf? (name : String) (t : Term) : Option Constraint :=
  match name with
  | "class" => some (.ofClass t)
  | "datatype" => t.iri?.map .datatype
  | "nodeKind" => Statements.nodeKind? t
  | "minCount" => (count? t).map .minCount
  | "maxCount" => (count? t).map .maxCount
  | "minInclusive" => some (.minInclusive t)
  | "maxInclusive" => some (.maxInclusive t)
  | "minExclusive" => some (.minExclusive t)
  | "maxExclusive" => some (.maxExclusive t)
  | "minLength" => (count? t).map .minLength
  | "maxLength" => (count? t).map .maxLength
  | "pattern" => (Regex.Pattern.ofText? t.lexical.toList (patternFlags "")).map
      (.pattern · t.lexical)
  | "hasValue" => some (.hasValue t)
  | _ => none

/-- The constraint that a parameter states, if it states one. -/
def Parameter.constraint? (q : Parameter) : Option Constraint :=
  match q.value with
  | .list texts => some (.isIn (texts.map .string))
  | v => (term? v).bind (constraintOf? q.name)

/-- A term that states a constraint as a value of its parameter. -/
def Statements.Gives (s : Statements) (o : Term) : Constraint → Prop
  | .ofClass c => c = o
  | .datatype iri => o.iri? = some iri
  | .nodeKind kind iri => nodeKind? o = some (.nodeKind kind iri)
  | .minCount n => count? o = some n
  | .maxCount n => count? o = some n
  | .minInclusive b => b = o
  | .maxInclusive b => b = o
  | .minExclusive b => b = o
  | .maxExclusive b => b = o
  | .minLength n => count? o = some n
  | .maxLength n => count? o = some n
  | .pattern p source => s.pattern? o = some (.pattern p source)
  | .isIn allowed => allowed = s.graph.listItems o
  | .hasValue t => t = o

theorem mem_of_first? {s : Statements} {parameter : String} {o : Term}
    (first : s.first? parameter = some o) : o ∈ s.all parameter :=
  List.mem_of_head? first

theorem exists_of_nodeKind {s : Statements} {o : Term} {c : Constraint}
    (first : s.first? "nodeKind" = some o) (read : Statements.nodeKind? o = some c) :
    ∃ o ∈ s.all c.parameter, s.Gives o c := by
  obtain ⟨k, -, rfl⟩ := Option.map_eq_some_iff.mp read
  exact ⟨o, mem_of_first? first, read⟩

theorem exists_of_pattern {s : Statements} {o : Term} {c : Constraint}
    (first : s.first? "pattern" = some o) (read : s.pattern? o = some c) :
    ∃ o ∈ s.all c.parameter, s.Gives o c := by
  obtain ⟨p, -, rfl⟩ := Option.map_eq_some_iff.mp read
  exact ⟨o, mem_of_first? first, read⟩

/-- A constraint is stated by a value of its parameter. -/
theorem exists_of_mem_constraints {s : Statements} {c : Constraint} (stated : c ∈ s.constraints) :
    ∃ o ∈ s.all c.parameter, s.Gives o c := by
  simp only [Statements.constraints, List.mem_append, Option.mem_toList, List.mem_map,
    Option.map_eq_some_iff, Option.bind_eq_some_iff] at stated
  rcases stated with (((((((((((((⟨o, first, rfl⟩ | ⟨iri, ⟨o, first, read⟩, rfl⟩) |
    ⟨o, first, read⟩) | ⟨n, ⟨o, first, read⟩, rfl⟩) | ⟨n, ⟨o, first, read⟩, rfl⟩) |
    ⟨o, first, rfl⟩) | ⟨o, first, rfl⟩) | ⟨o, first, rfl⟩) | ⟨o, first, rfl⟩) |
    ⟨n, ⟨o, first, read⟩, rfl⟩) | ⟨n, ⟨o, first, read⟩, rfl⟩) | ⟨o, first, read⟩) |
    ⟨o, first, rfl⟩) | ⟨o, member, rfl⟩)
  -- the form of a node kind or a pattern is only known from what was read
  all_goals first
    | exact ⟨o, member, rfl⟩
    | exact ⟨o, mem_of_first? first, rfl⟩
    | exact ⟨o, mem_of_first? first, read⟩
    | exact exists_of_nodeKind first read
    | exact exists_of_pattern first read

/-! ### What a graph says of rules -/

/-- Parameters that say what a shape consists of, so that they state no constraint. -/
def structural : List String :=
  ["property", "path", "inversePath", "targetClass", "targetNode", "targetSubjectsOf",
   "targetObjectsOf", "flags"]

theorem parameter_ne {name : String} (listed : name ∈ structural) (c : Constraint) :
    c.parameter ≠ name := by
  rintro rfl
  cases c <;> simp [structural, Constraint.parameter] at listed

/-- A parameter that states a constraint by its own value, which is a collection for `sh:in`. -/
def Parameter.Proper (q : Parameter) : Prop :=
  q.name ∉ structural ∧ match q.value with
    | .list _ => q.name = "in"
    | _ => q.name ≠ "in"

instance (q : Parameter) : Decidable q.Proper := by
  unfold Parameter.Proper
  cases q.value <;> infer_instance

structure Proper (rules : List Rule) : Prop where
  distinct : (rules.map Rule.name).Nodup
  parameters : ∀ r ∈ rules, ∀ p ∈ r.properties, ∀ q ∈ p.parameters, q.Proper

theorem rule_of_node {rules : List Rule} (proper : Proper rules) {r r' : Rule} (member : r ∈ rules)
    (member' : r' ∈ rules) (same : r.node = r'.node) : r = r' := by
  have names : r.name = r'.name := (String.append_right_inj _).mp (Term.iri.inj same)
  exact List.inj_on_of_nodup_map proper.distinct member member' names

section

variable {rules : List Rule} {prefixes : List (String × String)} {g : Graph}

theorem mem_statements {s : Term × Entry} :
    s ∈ (documentOf prefixes rules).statements namespaces ↔
      ∃ r ∈ rules, s.1 = r.node ∧ s.2 ∈ r.entries := by
  simp only [documentOf, Document.statements, List.mem_flatMap, List.mem_map,
    exists_exists_and_eq_and]
  constructor
  · rintro ⟨r, member, e, entry, rfl⟩
    exact ⟨r, member, rfl, entry⟩
  · rintro ⟨r, member, same, entry⟩
    exact ⟨r, member, s.2, entry, Prod.ext same.symm rfl⟩

/-- What a graph can say of the shape of a rule. -/
inductive OfRule (g : Graph) (r : Rule) : Term → Term → Prop where
  | type : OfRule g r (.iri (rdf "type")) (.iri (sh "NodeShape"))
  | target : OfRule g r (.iri (sh "targetClass")) (.iri (repo r.type))
  | property {p : Property} {k : Nat} (member : p ∈ r.properties)
      (lines : Tells namespaces g k (.numbered k) p.lines) :
      OfRule g r (.iri (sh "property")) (.numbered k)

theorem OfRule.of_type {r : Rule} {o : Term} (about : OfRule g r (.iri (rdf "type")) o) :
    o = .iri (sh "NodeShape") := by
  generalize same : Term.iri (rdf "type") = predicate at about
  cases about with
  | type => rfl
  | target => exact absurd (Term.iri.inj same) (rdf_ne_sh _ _)
  | property => exact absurd (Term.iri.inj same) (rdf_ne_sh _ _)

theorem OfRule.of_sh {r : Rule} {name : String} {o : Term}
    (about : OfRule g r (.iri (sh name)) o) :
    name = "targetClass" ∧ o = .iri (repo r.type) ∨ name = "property" ∧ ∃ p ∈ r.properties, ∃ k,
      o = .numbered k ∧ Tells namespaces g k (.numbered k) p.lines := by
  generalize same : Term.iri (sh name) = predicate at about
  cases about with
  | type => exact absurd (Term.iri.inj same) (sh_ne_rdf _ _)
  | target => exact .inl ⟨sh_inj.mp (Term.iri.inj same), rfl⟩
  | property member lines => exact .inr ⟨sh_inj.mp (Term.iri.inj same), _, member, _, rfl, lines⟩

variable (told : (documentOf prefixes rules).Told namespaces g) (proper : Proper rules)

include told

theorem of_named {t : Triple} (held : t ∈ g) (named : t.subject.isIri = true) :
    ∃ r ∈ rules, t.subject = r.node ∧ OfRule g r t.predicate t.object := by
  obtain ⟨s, stated, subject, tells⟩ := told.named t held named
  obtain ⟨r, member, node, entry⟩ := mem_statements.mp stated
  refine ⟨r, member, subject.trans node, ?_⟩
  obtain ⟨_, p, o⟩ := t
  obtain ⟨_, e⟩ := s
  rcases List.mem_cons.mp entry with rfl | entry
  · obtain ⟨rfl, rfl⟩ := tells
    exact .type
  rcases List.mem_cons.mp entry with rfl | entry
  · obtain ⟨rfl, rfl⟩ := tells
    exact .target
  · obtain ⟨property, member, rfl⟩ := List.mem_map.mp entry
    obtain ⟨rfl, k, -, rfl, lines⟩ := tells
    exact .property member lines

include proper in
/-- Nothing is said of a node without a name that would make it a shape of its own. -/
theorem of_others {t : Triple} (held : t ∈ g) (other : t.subject.isIri = false) :
    t.predicate ≠ .iri (rdf "type") ∧
      ∀ name ∈ structural, name ≠ "path" → t.predicate ≠ .iri (sh name) := by
  have predicate := told.others t held other
  rcases predicate with same | same | ⟨s, stated, l, inner, same⟩
  · rw [same]
    exact ⟨by decide, fun name _ _ => by simp⟩
  · rw [same]
    exact ⟨by decide, fun name _ _ => by simp⟩
  · obtain ⟨r, member, -, entry⟩ := mem_statements.mp stated
    have line : ∃ p ∈ r.properties, l ∈ p.lines := by
      obtain ⟨_, e⟩ := s
      rcases List.mem_cons.mp entry with rfl | entry
      · cases inner
      rcases List.mem_cons.mp entry with rfl | entry
      · cases inner
      · obtain ⟨p, member, rfl⟩ := List.mem_map.mp entry
        exact ⟨p, member, inner⟩
    obtain ⟨p, property, line⟩ := line
    rcases List.mem_cons.mp line with rfl | line
    · rw [same]
      refine ⟨?_, fun name _ other same => other ?_⟩
      · exact fun same => sh_ne_rdf "path" "type" (Term.iri.inj same)
      · exact (sh_inj.mp (Term.iri.inj same)).symm
    · obtain ⟨q, parameter, rfl⟩ := List.mem_map.mp line
      have apart := (proper.parameters r member p property q parameter).1
      rw [same]
      refine ⟨fun same => sh_ne_rdf q.name "type" (Term.iri.inj same), fun name listed _ same => ?_⟩
      have name : q.name = name := sh_inj.mp (Term.iri.inj same)
      exact apart (name ▸ listed)

omit told in
theorem constraintOf?_of_gives {s : Statements} {o : Term} {c : Constraint} (gives : s.Gives o c)
    (flagless : s.all "flags" = []) (single : c.parameter ≠ "in") :
    constraintOf? c.parameter o = some c := by
  have flags : s.first? "flags" = none := by rw [Statements.first?, flagless, List.head?_nil]
  cases c with
  | pattern p source =>
    simp only [Statements.Gives, Statements.pattern?, flags, Option.map_none, Option.getD_none]
      at gives
    exact gives
  | isIn allowed => exact absurd rfl single
  | _ => simp_all [Statements.Gives, constraintOf?, Constraint.parameter]

omit told in
/-- A parameter that means a term states whatever constraint the term gives. -/
theorem constraint?_of_gives {id : Term} {low : Nat} {q : Parameter} {o : Term} {c : Constraint}
    (proper : q.Proper) (name : q.name = c.parameter)
    (means : q.value.Means namespaces g low o) (gives : Statements.Gives ⟨g, id⟩ o c)
    (flagless : Statements.all ⟨g, id⟩ "flags" = []) : q.constraint? = some c := by
  obtain ⟨-, listed⟩ := proper
  have single (other : q.name ≠ "in") (read : term? q.value = some o) :
      (term? q.value).bind (constraintOf? q.name) = some c := by
    rw [read, Option.bind_some, name]
    exact constraintOf?_of_gives gives flagless (name ▸ other)
  rw [Parameter.constraint?]
  cases value : q.value with
  | list texts =>
    simp only [value] at listed means
    rw [name] at listed
    cases c with
    | isIn allowed =>
      have items : g.listItems o = texts.map .string := listItems_cells means
      exact congrArg some (congrArg Constraint.isIn (items.symm.trans gives.symm))
    | _ => simp [Constraint.parameter] at listed
  | _ =>
    simp only [value] at listed means single
    exact single listed (means ▸ rfl)

/-! ### Property shapes -/

section Properties

variable {p : Property} {k : Nat} (lines : Tells namespaces g k (.numbered k) p.lines)

omit told
include lines

/-- What is said of the node of a property. -/
theorem of_property {name : String} {o : Term}
    (stated : o ∈ Statements.all ⟨g, .numbered k⟩ name) : (name = "path" ∧ o = p.path) ∨
      ∃ q ∈ p.parameters, q.name = name ∧ q.value.Means namespaces g k o := by
  obtain ⟨l, line, same, means⟩ := lines _ o (Graph.mem_objects.mp stated)
  rcases List.mem_cons.mp line with rfl | line
  · exact .inl ⟨sh_inj.mp (Term.iri.inj same), means⟩
  · obtain ⟨q, parameter, rfl⟩ := List.mem_map.mp line
    exact .inr ⟨q, parameter, (sh_inj.mp (Term.iri.inj same)).symm, means⟩

variable (each : ∀ q ∈ p.parameters, q.Proper)

include each

theorem all_structural {name : String} (listed : name ∈ structural) (other : name ≠ "path") :
    Statements.all ⟨g, .numbered k⟩ name = [] := by
  refine List.eq_nil_iff_forall_not_mem.mpr fun o stated => ?_
  rcases of_property lines stated with ⟨same, -⟩ | ⟨q, parameter, same, -⟩
  · exact other same
  · exact (each q parameter).1 (same ▸ listed)

theorem path_of_property {path : Path} (found : Statements.path ⟨g, .numbered k⟩ = some path) :
    path = .predicate p.path := by
  obtain ⟨o, first, read⟩ := Option.bind_eq_some_iff.mp found
  rcases of_property lines (mem_of_first? first) with ⟨-, rfl⟩ | ⟨q, parameter, same, -⟩
  · exact (Option.some.inj read).symm
  · exact absurd (by simp [structural, same]) (each q parameter).1

theorem constraint_of_property {c : Constraint}
    (stated : c ∈ Statements.constraints ⟨g, .numbered k⟩) :
    ∃ q ∈ p.parameters, q.constraint? = some c := by
  obtain ⟨o, value, gives⟩ := exists_of_mem_constraints stated
  rcases of_property lines value with ⟨same, -⟩ | ⟨q, parameter, same, means⟩
  · exact absurd same (parameter_ne (by simp [structural]) c)
  · exact ⟨q, parameter, constraint?_of_gives (each q parameter) same means gives
      (all_structural lines each (by simp [structural]) (by simp))⟩

end Properties

/-! ### Shapes -/

/-- A shape that selects nodes of the class of a rule, and requires what the rule requires. -/
structure Shape.Follows (top : Shape) (r : Rule) : Prop where
  targets : ∀ t ∈ top.targets, t = .ofClass (.iri (repo r.type))
  active : ∀ s ∈ top.active, ∀ c ∈ s.constraints, ∃ p ∈ r.properties,
    s.path = some (.predicate p.path) ∧ ∃ q ∈ p.parameters, q.constraint? = some c

include proper in
theorem of_rule {r : Rule} (member : r ∈ rules) {p o : Term} (held : ⟨r.node, p, o⟩ ∈ g) :
    OfRule g r p o := by
  obtain ⟨r', member', same, about⟩ := of_named told held rfl
  rwa [rule_of_node proper member member' same]

include proper in
theorem root_of_rule {root : Term} (isRoot : root ∈ roots g) : ∃ r ∈ rules, root = r.node := by
  have named {p o : Term} (held : ⟨root, p, o⟩ ∈ g) (kind : p = .iri (rdf "type") ∨
      ∃ name ∈ structural, name ≠ "path" ∧ p = .iri (sh name)) : ∃ r ∈ rules, root = r.node := by
    cases name : root.isIri with
    | true =>
      obtain ⟨r, member, same, -⟩ := of_named told held name
      exact ⟨r, member, same⟩
    | false =>
      obtain ⟨noType, noTarget⟩ := of_others told proper held name
      rcases kind with same | ⟨part, listed, other, same⟩
      · exact absurd same noType
      · exact absurd same (noTarget part listed other)
  rcases List.mem_append.mp (SortedSet.mem_ofList.mp isRoot) with typed | targeted
  · obtain ⟨type, -, subject⟩ := List.mem_flatMap.mp typed
    exact named (Graph.mem_subjects.mp subject) (.inl rfl)
  · obtain ⟨name, listed, subject⟩ := List.mem_flatMap.mp targeted
    obtain ⟨o, held⟩ := Graph.mem_subjectsWith.mp (SortedSet.mem_toList.mp subject)
    refine named held (.inr ⟨name, ?_, ?_, rfl⟩)
    · simp only [List.mem_cons, List.not_mem_nil, or_false] at listed
      rcases listed with rfl | rfl | rfl | rfl <;> simp [structural]
    · rintro rfl
      simp at listed

include proper in
/-- A node that is attached to a shape is the node of a property. -/
theorem property_of_attached {r : Rule} (member : r ∈ rules) {node : Term}
    (attached : Attaches g r.node node) : ∃ p ∈ r.properties, ∃ k, node = .numbered k ∧
      Tells namespaces g k (.numbered k) p.lines := by
  rcases (of_rule told proper member attached).of_sh with ⟨other, -⟩ | ⟨-, property⟩
  · exact absurd other (by decide)
  · exact property

omit told in
include proper in
theorem compile_property {r : Rule} (member : r ∈ rules) {p : Property} (stated : p ∈ r.properties)
    {k : Nat} (lines : Tells namespaces g k (.numbered k) p.lines) :
    g.compileShape (.numbered k) = some (Statements.shape ⟨g, .numbered k⟩ [],
      Statements.skipped ⟨g, .numbered k⟩) :=
  compileShape_alone (all_structural lines (proper.parameters r member p stated)
    (by simp [structural]) (by simp))

include proper in
/-- The shape of a rule is compiled, with one property shape for each property. -/
theorem compile_rule {r : Rule} (member : r ∈ rules) : (g.compileShape r.node).isSome = true := by
  refine (compileShape_isSome_iff g r.node).mpr fun node attached => ?_
  obtain ⟨p, stated, k, rfl, lines⟩ := property_of_attached told proper member attached
  rw [compile_property proper member stated lines]
  rfl

include proper in
theorem all_of_rule {r : Rule} (member : r ∈ rules) {name : String} {o : Term}
    (value : o ∈ Statements.all ⟨g, r.node⟩ name) :
    name = "targetClass" ∧ o = .iri (repo r.type) ∨ name = "property" ∧ ∃ p ∈ r.properties, ∃ k,
      o = .numbered k ∧ Tells namespaces g k (.numbered k) p.lines :=
  (of_rule told proper member (Graph.mem_objects.mp value)).of_sh

include proper in
/-- The node of a rule states a class and properties only. -/
theorem not_mem_all {r : Rule} (member : r ∈ rules) {name : String} (target : name ≠ "targetClass")
    (property : name ≠ "property") {o : Term} : o ∉ Statements.all ⟨g, r.node⟩ name := by
  intro value
  rcases all_of_rule told proper member value with ⟨same, -⟩ | ⟨same, -⟩
  · exact target same
  · exact property same

include proper in
/-- A rule selects the nodes of its class only. -/
theorem targets_of_rule {r : Rule} (member : r ∈ rules) {t : Target}
    (selected : t ∈ Statements.targets ⟨g, r.node⟩) : t = .ofClass (.iri (repo r.type)) := by
  have silent {name : String} (target : name ≠ "targetClass") (property : name ≠ "property")
      {o : Term} (value : o ∈ Statements.all ⟨g, r.node⟩ name) :
      t = .ofClass (.iri (repo r.type)) :=
    absurd value (not_mem_all told proper member target property)
  simp only [Statements.targets, List.append_assoc, List.mem_append, List.mem_map] at selected
  rcases selected with ⟨o, value, rfl⟩ | ⟨o, value, -⟩ | ⟨o, value, -⟩ | ⟨o, value, -⟩ | isClass
  · rcases all_of_rule told proper member value with ⟨-, rfl⟩ | ⟨other, -⟩
    · rfl
    · exact absurd other (by decide)
  · exact silent (by decide) (by decide) value
  · exact silent (by decide) (by decide) value
  · exact silent (by decide) (by decide) value
  · split at isClass
    · rename_i both
      have typed : ⟨r.node, .iri (rdf "type"), .iri (rdfs "Class")⟩ ∈ g :=
        (Bool.and_eq_true _ _ ▸ both).1
      exact absurd (of_rule told proper member typed).of_type (by decide)
    · cases isClass

include proper in
theorem constraints_of_rule {r : Rule} (member : r ∈ rules) (c : Constraint) :
    c ∉ Statements.constraints ⟨g, r.node⟩ := by
  intro stated
  obtain ⟨o, value, -⟩ := exists_of_mem_constraints stated
  exact not_mem_all told proper member (parameter_ne (by simp [structural]) c)
    (parameter_ne (by simp [structural]) c) value

include proper in
/-- A shape that is attached to a rule is compiled from one of its properties. -/
theorem property_of_compiled {r : Rule} (member : r ∈ rules) {node : Term}
    (attached : Attaches g r.node node) {compiled : Shape × List (Term × String)}
    (found : g.compileShape node = some compiled) : ∃ p ∈ r.properties, ∃ k,
      Tells namespaces g k (.numbered k) p.lines ∧
        compiled.1 = Statements.shape ⟨g, .numbered k⟩ [] := by
  obtain ⟨p, stated, k, rfl, lines⟩ := property_of_attached told proper member attached
  rw [compile_property proper member stated lines] at found
  obtain rfl := Option.some.inj found
  exact ⟨p, stated, k, lines, rfl⟩

include proper in
theorem follows_rule {r : Rule} (member : r ∈ rules) {top : Shape} {skipped : List (Term × String)}
    (compiled : g.compileShape r.node = some (top, skipped)) : top.Follows r := by
  rw [Graph.compileShape] at compiled
  obtain ⟨children, listed, made⟩ := Option.bind_eq_some_iff.mp compiled
  obtain ⟨rfl, -⟩ := Prod.mk.inj (Option.some.inj made)
  refine ⟨fun t selected => targets_of_rule told proper member selected,
    fun s active c constraint => ?_⟩
  obtain ⟨-, rfl | ⟨child, attached, active⟩⟩ := Shape.mem_active_iff.mp active
  · exact absurd constraint (constraints_of_rule told proper member c)
  · obtain ⟨kept, pathed⟩ := List.mem_filter.mp attached
    obtain ⟨pair, compiled, rfl⟩ := List.mem_map.mp kept
    obtain ⟨node, value, found⟩ := mem_of_mapM listed pair compiled
    obtain ⟨p, stated, k, lines, same⟩ :=
      property_of_compiled told proper member (mem_all_property.mp value) found
    have each := proper.parameters r member p stated
    rw [same] at active pathed
    -- A property shape has no shapes below it.
    obtain ⟨-, rfl | ⟨child, below, -⟩⟩ := Shape.mem_active_iff.mp active
    · obtain ⟨path, walked⟩ := Option.isSome_iff_exists.mp pathed
      refine ⟨p, stated, ?_, constraint_of_property lines each constraint⟩
      exact walked.trans (congrArg some (path_of_property lines each walked))
    · cases below

/-! ### Sets of shapes -/

include proper in
/-- Rules are compiled to shapes that require what the rules require. -/
theorem compile_rules : ∃ set, ShapeSet.ofGraph g = some set ∧
    ∀ top ∈ set.shapes, ∃ r ∈ rules, top.Follows r := by
  have ends : (ShapeSet.ofGraph g).isSome = true := by
    refine (ofGraph_isSome_iff g).mpr fun root isRoot => ?_
    obtain ⟨r, member, rfl⟩ := root_of_rule told proper isRoot
    exact compile_rule told proper member
  obtain ⟨set, compiled⟩ := Option.isSome_iff_exists.mp ends
  refine ⟨set, compiled, fun top listed => ?_⟩
  obtain ⟨pairs, made, found⟩ := Option.bind_eq_some_iff.mp compiled
  obtain rfl := Option.some.inj found
  obtain ⟨pair, kept, rfl⟩ := List.mem_map.mp (List.mem_filter.mp listed).1
  obtain ⟨root, isRoot, below⟩ := mem_of_mapM made pair kept
  obtain ⟨r, member, rfl⟩ := root_of_rule told proper (SortedSet.mem_toList.mp isRoot)
  exact ⟨r, member, follows_rule told proper member below⟩

end

/-! ### Data against rules -/

/-- The values of a property meet what a parameter requires. -/
def Parameter.MetBy (q : Parameter) (data : Graph) (values : List Term) : Prop :=
  ∀ c, q.constraint? = some c → c.missed data values = []

variable {rules : List Rule} {data : Graph} {set : ShapeSet}

/-- A failing check is about a constraint of its shape and a value that misses it. -/
theorem missed_of_failed {c : Check} (failed : c ∈ failedChecks data set) :
    c.constraint ∈ c.shape.constraints ∧
      c.value ∈ c.constraint.missed data (c.shape.values data c.focus) := by
  simp only [failedChecks, Shape.missed, List.mem_flatMap, List.mem_map] at failed
  obtain ⟨_, _, _, _, _, _, constraint, stated, value, missed, rfl⟩ := failed
  exact ⟨stated, missed⟩

/-- Whatever is reported is a parameter of a rule that the values of its property do not meet. -/
theorem violation_of_rules {shapesGraph : Graph}
    (compiled : ShapeSet.ofGraph shapesGraph = some set) (unreserved : set.Unreserved)
    (follows : ∀ top ∈ set.shapes, ∃ r ∈ rules, top.Follows r) (known : GraphUnreserved data)
    {result : Violation} (reported : result ∈ violations (reportOf (findings data set))) :
    ∃ r ∈ rules, ∃ focus ∈ instancesOf data (.iri (repo r.type)), ∃ p ∈ r.properties,
      ∃ q ∈ p.parameters, result.path = some (namespaces p.pre ++ p.part) ∧
        (∀ c, q.constraint? = some c → result.component = c.component) ∧
        ¬ q.MetBy data (data.objects focus p.path) := by
  have found := (violations_findings compiled known unreserved).mem_iff.mp reported
  obtain ⟨check, failed, rfl⟩ := List.mem_map.mp found
  obtain ⟨top, listed, selected, active, -⟩ := mem_failedChecks failed
  obtain ⟨stated, missed⟩ := missed_of_failed failed
  obtain ⟨r, member, follows⟩ := follows top listed
  obtain ⟨p, property, path, q, parameter, states⟩ :=
    follows.active check.shape active check.constraint stated
  have focus : check.focus ∈ instancesOf data (.iri (repo r.type)) := by
    obtain ⟨target, aimed, selected⟩ := List.mem_flatMap.mp (SortedSet.mem_ofList.mp selected)
    rw [follows.targets target aimed] at selected
    exact SortedSet.mem_toList.mp selected
  refine ⟨r, member, check.focus, focus, p, property, q, parameter, ?_, fun c same => ?_, ?_⟩
  · simp only [Check.finding, Finding.rendered, path]
    rfl
  · rw [states] at same
    rw [← Option.some.inj same]
    rfl
  · intro met
    have values : check.shape.values data check.focus = data.objects check.focus p.path := by
      simp only [Shape.values, path]
      rfl
    rw [values, met _ states] at missed
    cases missed

end RepoAudit.Shacl
