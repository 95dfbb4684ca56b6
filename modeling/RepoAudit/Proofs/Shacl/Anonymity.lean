import RepoAudit.Proofs.Shacl.Listed
import RepoAudit.Proofs.Shacl.Renaming
import RepoAudit.Proofs.Shacl.Validation
import RepoAudit.Shacl.Validator

/-!
# Labels of blank nodes in a validation

The labels of the data do not matter to a validation as long as they are kept apart from those of
the shapes graph. A node of the data that is labelled like one of the shapes graph is taken for it.
-/

namespace RepoAudit.Shacl

open Rdf

/-! ### Terms of compiled shapes -/

section Compiled

variable {g : Graph} {P : Term → Prop} (data : ∀ t ∈ g, P t.subject ∧ P t.object)

include data

theorem all_of_data (id : Term) (parameter : String) :
    ∀ u ∈ Statements.all ⟨g, id⟩ parameter, P u :=
  fun _ stated => (data _ (Graph.mem_objects.mp stated)).2

theorem listItems_of_data (head : Term) : ∀ u ∈ g.listItems head, P u := by
  have followed (unvisited : List Term) (cell : Term) : ∀ u ∈ g.follow unvisited cell, P u := by
    fun_induction Graph.follow g unvisited cell with
    | case1 => simp
    | case2 unvisited cell _ item first ih =>
      have known := (data _ (Graph.mem_objects.mp (List.mem_of_head? first))).2
      refine List.forall_mem_cons.mpr ⟨known, ?_⟩
      split
      · simp
      · exact ih _
    | case3 => simp
  exact followed g.subjectsAll head

theorem targets_of_data {id : Term} (known : P id) :
    ∀ target ∈ Statements.targets ⟨g, id⟩, P target.term := by
  have all := all_of_data data id
  intro target stated
  simp only [Statements.targets, List.mem_append, List.mem_map] at stated
  rcases stated with (((⟨u, stated, rfl⟩ | ⟨u, stated, rfl⟩) | ⟨u, stated, rfl⟩) |
    ⟨u, stated, rfl⟩) | typed
  · exact all _ u stated
  · exact all _ u stated
  · exact all _ u stated
  · exact all _ u stated
  · split at typed
    · obtain rfl := List.mem_singleton.mp typed
      exact known
    · cases typed

theorem constraints_of_data (id : Term) :
    ∀ c ∈ Statements.constraints ⟨g, id⟩, ∀ u ∈ c.terms, P u := by
  have all := all_of_data data id
  intro c stated u named
  cases c with
  | ofClass c =>
    obtain rfl := List.mem_singleton.mp named
    exact all _ u (List.mem_of_head? (ofClass_mem_constraints.mp stated))
  | isIn allowed =>
    obtain ⟨head, rfl⟩ := isIn_mem_constraints stated
    exact listItems_of_data data head u named
  | hasValue t =>
    obtain rfl := List.mem_singleton.mp named
    exact all _ u (hasValue_mem_constraints.mp stated)
  | _ => cases named

/-- The terms that compiled shapes name are terms of the shapes graph. -/
theorem ofGraph_of_data {set : ShapeSet} (compiled : ShapeSet.ofGraph g = some set) :
    set.Every fun s => P s.id ∧ (∀ target ∈ s.targets, P target.term) ∧
      ∀ c ∈ s.constraints, ∀ u ∈ c.terms, P u := by
  refine ofGraph_every P ?_ ?_ compiled ?_
  · intro s p _ attached
    exact (data _ attached).2
  · intro id properties _ known
    exact ⟨known, targets_of_data data known, constraints_of_data data id⟩
  · intro root selected
    rcases mem_roots.mp selected with ⟨type, -, typed⟩ | ⟨p, -, o, targeted⟩
    · exact (data _ typed).1
    · exact (data _ targeted).1

end Compiled

theorem fixedBy_of_compiled {g : Graph} {set : ShapeSet} {π : Equiv.Perm String}
    (compiled : ShapeSet.ofGraph g = some set) (fixed : Set.EqOn id π g.mentioned) :
    set.Every (Shape.FixedBy π) := by
  have still : ∀ t ∈ g, t.subject.rename π = t.subject ∧ t.object.rename π = t.object := by
    intro t member
    obtain ⟨subject, -, object⟩ := Graph.within_mentioned member
    rw [← subject.rename_congr fixed, ← object.rename_congr fixed]
    exact ⟨t.subject.rename_id, t.object.rename_id⟩
  intro s member
  refine (ofGraph_of_data (P := fun u => u.rename π = u) still compiled s member).imp ?_
  exact fun s stated => ⟨stated.2.1, stated.2.2⟩

theorem unreserved_of_compiled {g : Graph} {set : ShapeSet}
    (compiled : ShapeSet.ofGraph g = some set) (unreserved : GraphUnreserved g) :
    set.Unreserved := by
  intro s member
  refine (ofGraph_of_data (P := Unreserved) unreserved compiled s member).imp ?_
  exact fun s stated => ⟨stated.1, fun n target => stated.2.1 (.node n) target⟩

/-! ### Terms of what a graph entails -/

/-- What a graph entails is about its own nodes and about terms of the ontologies. -/
theorem entail_of_data {g : Graph} {ontologies : List Graph} {P : Term → Prop}
    (data : ∀ o ∈ g :: ontologies, ∀ t ∈ o, P t.subject ∧ P t.object) :
    ∀ t ∈ entail g ontologies, P t.subject ∧ P t.object := by
  have lifted {t : Triple} (held : Lifted g ontologies t) : P t.subject ∧ P t.object := by
    rcases held with held | ⟨p, held, -⟩
    · exact data g (.head _) t held
    · exact data g (.head _) ⟨t.subject, p, t.object⟩ held
  intro t held
  rcases mem_entail.mp held with held | ⟨-, c, held, path, -⟩
  · exact lifted held
  · obtain ⟨_, -, o, listed, last⟩ := Relation.TransGen.tail'_iff.mp path
    exact ⟨(lifted held).1, (data o listed _ last).2⟩

/-! ### What a validation finds -/

namespace Validator

/-- The data as it is checked. -/
def completed (v : Validator) (data : Graph) : Graph :=
  if v.inference then entail data [v.shapesGraph] else data

def findings (v : Validator) (data : Graph) : List Finding :=
  Shacl.findings (v.completed data) v.shapes

variable {v : Validator} {g h : Graph}

theorem completed_of_data {P : Term → Prop} (shapes : ∀ t ∈ v.shapesGraph, P t.subject ∧ P t.object)
    (data : ∀ t ∈ g, P t.subject ∧ P t.object) :
    ∀ t ∈ v.completed g, P t.subject ∧ P t.object := by
  unfold completed
  split
  · exact entail_of_data (List.forall_mem_cons.mpr ⟨data, List.forall_mem_singleton.mpr shapes⟩)
  · exact data

theorem carried_completed {π : Equiv.Perm String} (carried : g.Carried π h)
    (shapes : v.shapesGraph.Carried π v.shapesGraph) :
    (v.completed g).Carried π (v.completed h) := by
  unfold completed
  split
  · exact carried_entail carried (.cons shapes .nil)
  · exact carried

/-- The results of a report are the findings, as text. -/
theorem violations_validate (compiled : ShapeSet.ofGraph v.shapesGraph = some v.shapes)
    (shapes : GraphUnreserved v.shapesGraph) (data : GraphUnreserved g) :
    (v.validate g).violations.Perm ((v.findings g).map Finding.rendered) := by
  have completed : GraphUnreserved (v.completed g) :=
    completed_of_data (P := Unreserved) shapes data
  have exact := violations_findings compiled completed (unreserved_of_compiled compiled shapes)
  refine exact.trans (.of_eq ?_)
  rw [findings, findings_eq, List.map_map]
  rfl

end Validator

def Finding.rename (f : String → String) (x : Finding) : Finding :=
  { x with focus := x.focus.rename f, value := x.value.map (·.rename f) }

theorem Check.rename_congr {known : Set String} {f f' : String → String}
    (agree : Set.EqOn f f' known) {c : Check} (focus : c.focus.Within known)
    (value : ∀ v ∈ c.value, v.Within known) : c.rename f = c.rename f' := by
  obtain ⟨shape, node, constraint, v⟩ := c
  unfold Check.rename
  rw [focus.rename_congr agree]
  cases v with
  | none => rfl
  | some v => rw [Option.map_some, Option.map_some, (value v rfl).rename_congr agree]

namespace Validator

variable {v : Validator} {g h : Graph}

/-- A check is about nodes of the data and of the shapes graph. -/
theorem check_within (compiled : ShapeSet.ofGraph v.shapesGraph = some v.shapes) {c : Check}
    (failed : c ∈ failedChecks (v.completed g) v.shapes) :
    c.focus.Within (g.mentioned ∪ v.shapesGraph.mentioned) ∧
      ∀ u ∈ c.value, u.Within (g.mentioned ∪ v.shapesGraph.mentioned) := by
  let P := Term.Within (g.mentioned ∪ v.shapesGraph.mentioned)
  have data : ∀ t ∈ g, P t.subject ∧ P t.object := by
    intro t member
    obtain ⟨subject, -, object⟩ := Graph.within_mentioned member
    exact ⟨fun label same => .inl (subject label same), fun label same => .inl (object label same)⟩
  have shapes : ∀ t ∈ v.shapesGraph, P t.subject ∧ P t.object := by
    intro t member
    obtain ⟨subject, -, object⟩ := Graph.within_mentioned member
    exact ⟨fun label same => .inr (subject label same), fun label same => .inr (object label same)⟩
  refine check_of_data (P := P) (completed_of_data shapes data) (fun s member n target => ?_) failed
  exact (ofGraph_of_data shapes compiled s member).here.2.1 (.node n) target

theorem findings_rename (compiled : ShapeSet.ofGraph v.shapesGraph = some v.shapes)
    {f : String → String} (renamed : ∀ t, t ∈ h ↔ ∃ u ∈ g, t = u.rename f)
    (apart : Set.InjOn f (g.mentioned ∪ v.shapesGraph.mentioned))
    (fixed : ∀ label ∈ v.shapesGraph.mentioned, f label = label) :
    (v.findings h).Perm ((v.findings g).map (Finding.rename f)) := by
  obtain ⟨π, agree⟩ := exists_permutation
    (g.finite_mentioned.union v.shapesGraph.finite_mentioned) apart
  have still : Set.EqOn id π v.shapesGraph.mentioned := fun label member =>
    (fixed label member).symm.trans (agree (.inr member))
  have carried : (v.completed g).Carried π (v.completed h) :=
    carried_completed (Graph.carried_of_renamed renamed fun _ member => agree (.inl member))
      (Graph.carried_self still)
  have checks := failedChecks_rename carried (ofGraph_pathNamed compiled)
    (fixedBy_of_compiled compiled still)
  rw [findings, findings, findings_eq, findings_eq, List.map_map]
  refine (checks.map Check.finding).trans (.of_eq ?_)
  rw [List.map_map]
  refine List.map_congr_left fun c failed => ?_
  obtain ⟨focus, value⟩ := check_within compiled failed
  exact congrArg Check.finding (Check.rename_congr agree focus value).symm

theorem conforms_validate (v : Validator) (data : Graph) :
    (v.validate data).conforms = (v.findings data).isEmpty :=
  conforms_reportOf _

/-- Validation finds the same in renamed data, with the renaming applied to focus nodes and values,
if the renaming keeps the labels of the data and of the shapes graph apart and leaves the latter
alone. -/
theorem validate_rename (compiled : ShapeSet.ofGraph v.shapesGraph = some v.shapes)
    {f : String → String} (renamed : ∀ t, t ∈ h ↔ ∃ u ∈ g, t = u.rename f)
    (apart : Set.InjOn f (g.mentioned ∪ v.shapesGraph.mentioned))
    (fixed : ∀ label ∈ v.shapesGraph.mentioned, f label = label) :
    (v.findings h).Perm ((v.findings g).map (Finding.rename f)) ∧
    (v.validate h).conforms = (v.validate g).conforms ∧
    (GraphUnreserved v.shapesGraph → GraphUnreserved g →
      (v.validate g).violations.Perm ((v.findings g).map Finding.rendered)) ∧
    (GraphUnreserved v.shapesGraph → GraphUnreserved h →
      (v.validate h).violations.Perm ((v.findings g).map fun x => (x.rename f).rendered)) := by
  have same := findings_rename compiled renamed apart fixed
  refine ⟨same, ?_, fun shapes data => violations_validate compiled shapes data, ?_⟩
  · have length := same.length_eq
    rw [List.length_map] at length
    rw [conforms_validate, conforms_validate, Bool.eq_iff_iff, List.isEmpty_iff_length_eq_zero,
      List.isEmpty_iff_length_eq_zero, length]
  · intro shapes data
    have read := (violations_validate compiled shapes data).trans (same.map Finding.rendered)
    rwa [List.map_map] at read

end Validator

/-! ### A node taken for another -/

/-- One shape, which wants a door to have a certain key. -/
def doorShapes : Graph :=
  (∅ : Graph).insertMany [
    ⟨.iri "ex:shape", .iri (sh "targetNode"), .iri "ex:door"⟩,
    ⟨.iri "ex:shape", .iri (sh "path"), .iri "ex:key"⟩,
    ⟨.iri "ex:shape", .iri (sh "hasValue"), .blank "b1"⟩]

def doorValidator : Validator where
  shapesGraph := doorShapes
  shapes := { shapes := [Statements.shape ⟨doorShapes, .iri "ex:shape"⟩ []] }
  sources := []

/-- The door has one key. -/
def doorWith (label : String) : Graph :=
  (∅ : Graph).insert ⟨.iri "ex:door", .iri "ex:key", .blank label⟩

section

open scoped Listed

theorem ofGraph_door : ShapeSet.ofGraph doorShapes = some doorValidator.shapes := by
  refine ofGraph_alone (SortedSet.toList_eq_singleton fun x => ?_) ?_
    (Statements.skipped_eq_nil ?_) ?_ <;> simp [doorShapes]

theorem shape_door : Statements.shape ⟨doorShapes, .iri "ex:shape"⟩ [] =
    .mk (.iri "ex:shape") [.node (.iri "ex:door")] (some (.predicate (.iri "ex:key")))
      [.hasValue (.blank "b1")] .violation none false [] := by
  simp [doorShapes]

theorem conforms_door (label : String) :
    (doorValidator.validate (doorWith label)).conforms = (label == "b1") := by
  have held : (doorWith label).objects (.iri "ex:door") (.iri "ex:key") = [.blank label] :=
    Graph.objects_listed [⟨.iri "ex:door", .iri "ex:key", .blank label⟩] _ _
  rw [Validator.conforms_validate]
  simp only [Validator.findings, Validator.completed, doorValidator, shape_door]
  rcases eq_or_ne label "b1" with rfl | apart
  · simp [held]
  · simp [held, apart, apart.symm]

end

theorem mem_doorWith {label : String} {t : Triple} :
    t ∈ doorWith label ↔ t = ⟨.iri "ex:door", .iri "ex:key", .blank label⟩ := by
  rw [doorWith, Graph.mem_insert, or_iff_left (Graph.not_mem_empty t)]

theorem doorWith_rename (label : String) (f : String → String) :
    ∀ t, t ∈ doorWith (f label) ↔ ∃ u ∈ doorWith label, t = u.rename f := by
  intro t
  simp only [mem_doorWith, exists_eq_left]
  exact .rfl

theorem mem_doorShapes {t : Triple} (member : t ∈ doorShapes) : t.subject = .iri "ex:shape" ∧
    t.predicate.isIri = true ∧ (t.object.isIri = true ∨ t.object = .blank "b1") := by
  rw [doorShapes, Graph.mem_listed] at member
  simp only [List.mem_cons, List.not_mem_nil, or_false] at member
  rcases member with rfl | rfl | rfl
  · exact ⟨rfl, rfl, .inl rfl⟩
  · exact ⟨rfl, rfl, .inl rfl⟩
  · exact ⟨rfl, rfl, .inr rfl⟩

/-- The same renaming as a permutation of all labels changes the outcome. -/
theorem validate_doors : ∃ (v : Validator) (g h : Graph) (f : String → String),
    ShapeSet.ofGraph v.shapesGraph = some v.shapes ∧ f.Injective ∧
    (∀ t, t ∈ h ↔ ∃ u ∈ g, t = u.rename f) ∧
    (v.validate g).conforms = true ∧ (v.validate h).conforms = false := by
  let f := Equiv.swap "b1" "b2"
  have renamed : ∀ t, t ∈ doorWith "b2" ↔ ∃ u ∈ doorWith "b1", t = u.rename f :=
    doorWith_rename "b1" f
  refine ⟨doorValidator, doorWith "b1", doorWith "b2", f, ofGraph_door, f.injective, renamed, ?_, ?_⟩
  · rw [conforms_door]
    rfl
  · rw [conforms_door]
    rfl

theorem validate_rename_door :
    ShapeSet.ofGraph doorShapes = some doorValidator.shapes ∧
    (∀ t, t ∈ doorWith "b3" ↔ ∃ u ∈ doorWith "b2", t = u.rename (Equiv.swap "b2" "b3")) ∧
    Set.InjOn (Equiv.swap "b2" "b3") ((doorWith "b2").mentioned ∪ doorShapes.mentioned) ∧
    (∀ label ∈ doorShapes.mentioned, Equiv.swap "b2" "b3" label = label) ∧
    GraphUnreserved doorShapes ∧ GraphUnreserved (doorWith "b3") ∧
    (doorValidator.validate (doorWith "b3")).violations.Perm
      ((doorValidator.findings (doorWith "b2")).map fun x =>
        (x.rename (Equiv.swap "b2" "b3")).rendered) := by
  have renamed := doorWith_rename "b2" (Equiv.swap "b2" "b3")
  have apart : Set.InjOn (Equiv.swap "b2" "b3") ((doorWith "b2").mentioned ∪ doorShapes.mentioned) :=
    (Equiv.swap "b2" "b3").injective.injOn
  have fixed : ∀ label ∈ doorShapes.mentioned, Equiv.swap "b2" "b3" label = label := by
    rintro label ⟨t, member, mentions⟩
    obtain ⟨subject, predicate, object⟩ := mem_doorShapes member
    have same : label = "b1" := by
      rcases mentions with mentions | mentions | mentions
      · rw [subject] at mentions
        cases mentions
      · rw [mentions] at predicate
        cases predicate
      · rw [mentions] at object
        simpa [Term.isIri] using object
    rw [same]
    decide
  have shapes : GraphUnreserved doorShapes := by
    intro t member
    obtain ⟨subject, -, object⟩ := mem_doorShapes member
    refine ⟨unreserved_of_isIri (by rw [subject]; rfl), ?_⟩
    rcases object with object | object
    · exact unreserved_of_isIri object
    · rw [object]
      exact unreserved_blank (by decide) ['1']
  have data : GraphUnreserved (doorWith "b3") := by
    intro t member
    obtain rfl := mem_doorWith.mp member
    exact ⟨unreserved_of_isIri rfl, unreserved_blank (by decide) ['3']⟩
  obtain ⟨-, -, -, found⟩ :=
    Validator.validate_rename (v := doorValidator) ofGraph_door renamed apart fixed
  exact ⟨ofGraph_door, renamed, apart, fixed, shapes, data, found shapes data⟩

end RepoAudit.Shacl
