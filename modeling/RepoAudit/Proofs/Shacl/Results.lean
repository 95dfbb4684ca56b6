import RepoAudit.Proofs.Shacl.Instances
import RepoAudit.Proofs.Shacl.Listed
import RepoAudit.Proofs.Shacl.Report

/-!
# Results of one shape

Which results a report has of a shape follows from what the shapes graph says of its node. Of the
classes that are stated only the first counts, and a shape whose path is not supported is checked at
its focus nodes themselves.
-/

namespace RepoAudit.Shacl

open Rdf

/-- A report has a result of a shape at a focus node for a constraint component. -/
def Reports (report : Graph) (shape focus : Term) (component : String) : Prop :=
  ∃ result, ⟨result, .iri (sh "sourceShape"), shape⟩ ∈ report ∧
    ⟨result, .iri (sh "focusNode"), focus⟩ ∈ report ∧
    ⟨result, .iri (sh "sourceConstraintComponent"), .iri component⟩ ∈ report

/-! ### Results and findings -/

section

variable {fs : List Finding} {n : Nat} {f : Finding} {o : Term}

theorem sourceShape_mem_resultFields : (sh "sourceShape", o) ∈ resultFields n f ↔ o = f.shape.id := by
  simp [resultFields]

theorem focusNode_mem_resultFields : (sh "focusNode", o) ∈ resultFields n f ↔ o = f.focus := by
  simp [resultFields]

theorem component_mem_resultFields : (sh "sourceConstraintComponent", o) ∈ resultFields n f ↔
    o = .iri f.constraint.component := by
  simp [resultFields]

theorem exists_zipIdx (member : f ∈ fs) : ∃ n, (f, n) ∈ fs.zipIdx 1 := by
  rw [← List.zipIdx_map_fst 1 fs] at member
  obtain ⟨⟨_, n⟩, listed, rfl⟩ := List.mem_map.mp member
  exact ⟨n, listed⟩

/-- Only results have a source. -/
theorem resultNode_of_sourceShape {result shape : Term}
    (held : ⟨result, .iri (sh "sourceShape"), shape⟩ ∈ reportOf fs) :
    ∃ f n, (f, n) ∈ fs.zipIdx 1 ∧ result = resultNode n := by
  rcases mem_reportOf.mp held with ⟨f, n, listed, same, -⟩ | ⟨-, -, -, -, other, -⟩ | ⟨-, field⟩
  · exact ⟨f, n, listed, same⟩
  · simp at other
  · simp [reportFields] at field

theorem reports_iff {shape focus : Term} {component : String} :
    Reports (reportOf fs) shape focus component ↔
      ∃ f ∈ fs, f.shape.id = shape ∧ f.focus = focus ∧ f.constraint.component = component := by
  constructor
  · rintro ⟨result, source, focused, kind⟩
    obtain ⟨f, n, listed, rfl⟩ := resultNode_of_sourceShape source
    rw [mem_resultNode listed] at source focused kind
    rw [sourceShape_mem_resultFields] at source
    rw [focusNode_mem_resultFields] at focused
    rw [component_mem_resultFields] at kind
    exact ⟨f, List.fst_mem_of_mem_zipIdx listed, source.symm, focused.symm,
      (Term.iri.inj kind).symm⟩
  · rintro ⟨f, member, rfl, rfl, rfl⟩
    obtain ⟨n, listed⟩ := exists_zipIdx member
    exact ⟨resultNode n, (mem_resultNode listed).mpr (sourceShape_mem_resultFields.mpr rfl),
      (mem_resultNode listed).mpr (focusNode_mem_resultFields.mpr rfl),
      (mem_resultNode listed).mpr (component_mem_resultFields.mpr rfl)⟩

end

section Compiled

variable {shapes data : Graph} {set : ShapeSet} {id focus : Term} {component : String}

theorem reports_findings_iff : Reports (reportOf (findings data set)) id focus component ↔
    ∃ top ∈ set.shapes, focus ∈ focusNodes data top ∧ ∃ s ∈ top.active, s.id = id ∧
      ∃ c ∈ s.constraints, c.component = component ∧ c.failures data (s.values data focus) ≠ [] := by
  rw [reports_iff, findings_eq]
  simp only [List.mem_map, mem_failedChecks_iff, failures_eq]
  constructor
  · rintro ⟨_, ⟨c, ⟨top, listed, selected, active, stated, missed⟩, rfl⟩, rfl, rfl, rfl⟩
    exact ⟨top, listed, selected, c.shape, active, rfl, c.constraint, stated, rfl,
      List.ne_nil_of_mem missed⟩
  · rintro ⟨top, listed, selected, s, active, rfl, c, stated, rfl, failing⟩
    obtain ⟨v, missed⟩ := List.exists_mem_of_ne_nil _ failing
    exact ⟨_, ⟨⟨s, focus, c, v⟩, ⟨top, listed, selected, active, stated, missed⟩, rfl⟩, rfl, rfl, rfl⟩

/-- What a report says of an active shape follows from the constraints of the shape. -/
theorem reports_active_iff (compiled : ShapeSet.ofGraph shapes = some set) {top s : Shape}
    (listed : top ∈ set.shapes) (selected : focus ∈ focusNodes data top) (active : s ∈ top.active) :
    Reports (reportOf (findings data set)) s.id focus component ↔
      ∃ c ∈ Statements.constraints ⟨shapes, s.id⟩, c.component = component ∧
        c.failures data (s.values data focus) ≠ [] := by
  have stated {top s : Shape} (listed : top ∈ set.shapes) (active : s ∈ top.active) :
      s.StatedBy shapes := (ofGraph_statedBy compiled top listed).of_active s active
  rw [reports_findings_iff, ← (stated listed active).constraints]
  constructor
  · rintro ⟨top', listed', -, s', active', same, c, member, named, failing⟩
    -- shapes with the same node have the same constraints and the same values
    have constraints : s'.constraints = s.constraints := by
      rw [(stated listed' active').constraints, (stated listed active).constraints, same]
    have values : s'.values data focus = s.values data focus := by
      rw [Shape.values, Shape.values, (stated listed' active').path, (stated listed active).path,
        same]
    rw [constraints] at member
    rw [values] at failing
    exact ⟨c, member, named, failing⟩
  · rintro ⟨c, member, named, failing⟩
    exact ⟨top, listed, selected, s, active, rfl, c, member, named, failing⟩

/-- There is no result of a component exactly if every constraint of that component is met. -/
theorem not_reports_active_iff (compiled : ShapeSet.ofGraph shapes = some set) {top s : Shape}
    (listed : top ∈ set.shapes) (selected : focus ∈ focusNodes data top) (active : s ∈ top.active) :
    ¬ Reports (reportOf (findings data set)) s.id focus component ↔
      ∀ c ∈ Statements.constraints ⟨shapes, s.id⟩, c.component = component →
        c.failures data (s.values data focus) = [] := by
  rw [reports_active_iff compiled listed selected active]
  simp only [not_exists, not_and, ne_eq, not_not]

/-! ### Classes and expected values -/

theorem component_class {c : Constraint} :
    c.component = sh "ClassConstraintComponent" ↔ ∃ k, c = .ofClass k := by
  cases c <;> simp [Constraint.component, componentOf, Constraint.parameter, Text.upperChar]

theorem component_hasValue {c : Constraint} :
    c.component = sh "HasValueConstraintComponent" ↔ ∃ t, c = .hasValue t := by
  cases c <;> simp [Constraint.component, componentOf, Constraint.parameter, Text.upperChar]

theorem failures_ofClass {values : List Term} {k : Term} :
    (Constraint.ofClass k).failures data values = [] ↔ ∀ v ∈ values, InstanceOf data v k := by
  simp [Constraint.failures, Constraint.admitsAll, Constraint.admits, isInstance_iff]

theorem failures_hasValue {values : List Term} {t : Term} :
    (Constraint.hasValue t).failures data values = [] ↔ t ∈ values := by
  simp [Constraint.failures, Constraint.admitsAll, Constraint.admits]

theorem not_reports_class_iff (compiled : ShapeSet.ofGraph shapes = some set) {top s : Shape}
    (listed : top ∈ set.shapes) (selected : focus ∈ focusNodes data top) (active : s ∈ top.active) :
    ¬ Reports (reportOf (findings data set)) s.id focus (sh "ClassConstraintComponent") ↔
      ∀ c ∈ Statements.first? ⟨shapes, s.id⟩ "class", ∀ v ∈ s.values data focus,
        InstanceOf data v c := by
  rw [not_reports_active_iff compiled listed selected active]
  constructor
  · intro met c first
    exact failures_ofClass.mp
      (met _ (ofClass_mem_constraints.mpr first) (component_class.mpr ⟨c, rfl⟩))
  · intro met _ stated named
    obtain ⟨c, rfl⟩ := component_class.mp named
    exact failures_ofClass.mpr (met c (ofClass_mem_constraints.mp stated))

theorem not_reports_hasValue_iff (compiled : ShapeSet.ofGraph shapes = some set) {top s : Shape}
    (listed : top ∈ set.shapes) (selected : focus ∈ focusNodes data top) (active : s ∈ top.active) :
    ¬ Reports (reportOf (findings data set)) s.id focus (sh "HasValueConstraintComponent") ↔
      ∀ t ∈ Statements.all ⟨shapes, s.id⟩ "hasValue", t ∈ s.values data focus := by
  rw [not_reports_active_iff compiled listed selected active]
  constructor
  · intro met t stated
    exact failures_hasValue.mp
      (met _ (hasValue_mem_constraints.mpr stated) (component_hasValue.mpr ⟨t, rfl⟩))
  · intro met _ stated named
    obtain ⟨t, rfl⟩ := component_hasValue.mp named
    exact failures_hasValue.mpr (met t (hasValue_mem_constraints.mp stated))

/-- A focus node gets no class result of a shape exactly if all its values are instances of the first
class that is stated, and no result of an expected value exactly if all of those are among its
values. -/
theorem silent_of_values (compiled : ShapeSet.ofGraph shapes = some set) {top s : Shape}
    (listed : top ∈ set.shapes) (selected : focus ∈ focusNodes data top) (active : s ∈ top.active) :
    (¬ Reports (reportOf (findings data set)) s.id focus (sh "ClassConstraintComponent") ↔
      ∀ c ∈ Statements.first? ⟨shapes, s.id⟩ "class", ∀ v ∈ s.values data focus,
        InstanceOf data v c) ∧
    (¬ Reports (reportOf (findings data set)) s.id focus (sh "HasValueConstraintComponent") ↔
      ∀ t ∈ Statements.all ⟨shapes, s.id⟩ "hasValue", t ∈ s.values data focus) :=
  ⟨not_reports_class_iff compiled listed selected active,
    not_reports_hasValue_iff compiled listed selected active⟩

end Compiled

/-- Tom has to be a cat and a pet, and is expected to be himself. -/
def catAndPet : Graph :=
  (∅ : Graph).insertMany [
    ⟨.iri "ex:shape", .iri (sh "targetNode"), tom⟩,
    ⟨.iri "ex:shape", .iri (sh "class"), cat⟩,
    ⟨.iri "ex:shape", .iri (sh "class"), pet⟩,
    ⟨.iri "ex:shape", .iri (sh "hasValue"), tom⟩]

def catAndPetShape : Shape :=
  .mk (.iri "ex:shape") [.node tom] none [.ofClass cat, .hasValue tom] .violation none false []

/-- Tom is a cat, and no cat is a pet. -/
def tomIsCat : Graph := (∅ : Graph).insertMany [⟨tom, .iri (rdf "type"), cat⟩]

section

open scoped Listed

theorem ordered_cat_pet : (SortedSet.ofList [cat, pet]).toList = [cat, pet] := by decide +kernel

theorem shape_catAndPet :
    Statements.shape ⟨catAndPet, .iri "ex:shape"⟩ [] = catAndPetShape := by
  simp [catAndPet, catAndPetShape, ordered_cat_pet]

theorem ofGraph_catAndPet :
    ShapeSet.ofGraph catAndPet = some { shapes := [catAndPetShape] } := by
  rw [← shape_catAndPet]
  refine ofGraph_alone (SortedSet.toList_eq_singleton fun x => ?_) ?_
    (Statements.skipped_eq_nil ?_) ?_ <;> simp [catAndPet]

theorem eq_cat_of_instance {c : Term} (isInstance : InstanceOf tomIsCat tom c) : c = cat := by
  obtain ⟨type, typed, path⟩ := isInstance
  obtain rfl : type = cat := by simpa [states_singleton, tomIsCat] using typed
  rcases path.cases_head with same | ⟨high, below, -⟩
  · exact same.symm
  · obtain ⟨-, other, -⟩ : cat = tom ∧ rdfs "subClassOf" = rdf "type" ∧ high = cat := by
      simpa [states_singleton, tomIsCat] using below
    exact absurd other (rdfs_ne_type _)
end

theorem tom_selected : tom ∈ focusNodes tomIsCat catAndPetShape := by
  simp [focusNodes, catAndPetShape, Shape.targets, Target.nodes]

theorem catAndPet_active : catAndPetShape ∈ catAndPetShape.active := by
  simp [Shape.active_eq, catAndPetShape, Shape.deactivated]

theorem silent_of_tom :
    ShapeSet.ofGraph catAndPet = some { shapes := [catAndPetShape] } ∧
    tom ∈ focusNodes tomIsCat catAndPetShape ∧ catAndPetShape ∈ catAndPetShape.active ∧
    ¬ Reports (reportOf (findings tomIsCat { shapes := [catAndPetShape] })) catAndPetShape.id tom
      (sh "HasValueConstraintComponent") := by
  refine ⟨ofGraph_catAndPet, tom_selected, catAndPet_active, ?_⟩
  refine (silent_of_values ofGraph_catAndPet (.head _) tom_selected catAndPet_active).2.mpr ?_
  intro t stated
  obtain rfl : t = tom := by
    simpa [Statements.all_listed, catAndPet, catAndPetShape, Shape.id] using stated
  exact .head _

/-- Tom is no pet, but there is no result. -/
theorem silent_of_second_class : ∃ (shapes data : Graph) (set : ShapeSet),
    ShapeSet.ofGraph shapes = some set ∧ ∃ top ∈ set.shapes, top ∈ top.active ∧
      ∃ focus ∈ focusNodes data top, ∃ c ∈ Statements.all ⟨shapes, top.id⟩ "class",
        (∃ v ∈ top.values data focus, ¬ InstanceOf data v c) ∧
        ¬ Reports (reportOf (findings data set)) top.id focus (sh "ClassConstraintComponent") := by
  refine ⟨catAndPet, tomIsCat, _, ofGraph_catAndPet, catAndPetShape, .head _, catAndPet_active, tom,
    tom_selected, pet, ?_, ⟨tom, .head _, fun isPet => ?_⟩, ?_⟩
  · rw [Statements.all, Graph.mem_objects]
    simp [catAndPet, catAndPetShape, Shape.id]
  · exact absurd (eq_cat_of_instance isPet) (by decide)
  · refine (not_reports_class_iff ofGraph_catAndPet (.head _) tom_selected catAndPet_active).mpr ?_
    intro c first v value
    obtain rfl := List.mem_singleton.mp value
    have listed : Statements.all ⟨catAndPet, catAndPetShape.id⟩ "class" = [cat, pet] := by
      rw [catAndPet, Statements.all_listed]
      simpa [catAndPetShape, Shape.id] using ordered_cat_pet
    rw [Statements.first?, listed] at first
    obtain rfl := Option.some.inj first
    exact ⟨cat, states_singleton.mpr (by simp [tomIsCat]), .refl⟩

/-! ### Paths that are not supported -/

theorem Shape.Every.attached {P : Shape → Prop} {s : Shape} (every : s.Every P) :
    s.Every fun t => P t ∧ ∀ child ∈ t.properties, P child := by
  induction every with
  | intro here below ih => exact .intro ⟨here, fun child member => (below child member).here⟩ ih

/-- Active shapes are attached, except for the one that they are below. -/
theorem Shape.Every.active_cases {P : Shape → Prop} {s : Shape}
    (every : s.Every fun t => ∀ child ∈ t.properties, P child) : ∀ t ∈ s.active, t = s ∨ P t := by
  induction every with
  | intro here _ ih =>
    intro t active
    obtain ⟨-, rfl | ⟨child, attached, active⟩⟩ := Shape.mem_active_iff.mp active
    · exact .inl rfl
    · rcases ih child attached t active with rfl | holds
      · exact .inr (here t attached)
      · exact .inr holds

section Pathless

variable {shapes data : Graph} {set : ShapeSet} {id : Term}

theorem path_eq_none {t : Term} (stated : Statements.first? ⟨shapes, id⟩ "path" = some t)
    (unsupported : path? shapes t = none) : Statements.path ⟨shapes, id⟩ = none := by
  rw [Statements.path, stated]
  exact unsupported

/-- A shape without a path is not attached to another one. -/
theorem not_attached_of_pathless (compiled : ShapeSet.ofGraph shapes = some set)
    (pathless : Statements.path ⟨shapes, id⟩ = none) :
    set.Every fun s => ∀ child ∈ s.properties, child.id ≠ id := by
  intro top listed
  refine (ofGraph_statedBy compiled top listed).attached.imp ?_
  rintro s ⟨stated, attached⟩ child member rfl
  have named := stated.properties child member
  rw [(attached child member).path, pathless] at named
  cases named

/-- A shape without a path is checked at the nodes that its targets select, which stand for the
values. -/
theorem reports_pathless_iff (compiled : ShapeSet.ofGraph shapes = some set)
    (pathless : Statements.path ⟨shapes, id⟩ = none) {focus : Term} {component : String} :
    Reports (reportOf (findings data set)) id focus component ↔
      Statements.deactivated ⟨shapes, id⟩ = false ∧
      (∃ target ∈ Statements.targets ⟨shapes, id⟩, focus ∈ target.nodes data) ∧
      ∃ c ∈ Statements.constraints ⟨shapes, id⟩, c.component = component ∧
        c.failures data [focus] ≠ [] := by
  have stated {top : Shape} (listed : top ∈ set.shapes) : top.StatedBy shapes :=
    (ofGraph_statedBy compiled top listed).here
  rw [reports_findings_iff]
  constructor
  · rintro ⟨top, listed, selected, s, active, rfl, c, member, named, failing⟩
    -- the shape is attached to none, so it is one of the set
    rcases (not_attached_of_pathless compiled pathless top listed).active_cases s active with
      rfl | other
    · have kept := Shape.self_mem_active.mp active
      rw [(stated listed).deactivated] at kept
      rw [focusNodes, SortedSet.mem_ofList, (stated listed).targets] at selected
      rw [(stated listed).constraints] at member
      rw [Shape.values, (stated listed).path, pathless] at failing
      exact ⟨kept, List.mem_flatMap.mp selected, c, member, named, failing⟩
    · exact absurd rfl other
  · rintro ⟨kept, ⟨target, targeted, selected⟩, c, member, named, failing⟩
    obtain ⟨top, listed, rfl⟩ := exists_shape_of_target compiled targeted
    refine ⟨top, listed, ?_, top, ?_, rfl, c, ?_, named, ?_⟩
    · rw [focusNodes, SortedSet.mem_ofList, (stated listed).targets]
      exact List.mem_flatMap.mpr ⟨target, targeted, selected⟩
    · rw [Shape.self_mem_active, (stated listed).deactivated]
      exact kept
    · rwa [(stated listed).constraints]
    · rwa [Shape.values, (stated listed).path, pathless]

/-- A shape whose path is not supported is attached to none. But where it has targets itself, it is
checked as if its path led from each node to the node itself. -/
theorem reports_unsupported_path (compiled : ShapeSet.ofGraph shapes = some set) {t : Term}
    (stated : Statements.first? ⟨shapes, id⟩ "path" = some t) (unsupported : path? shapes t = none) :
    (set.Every fun s => ∀ child ∈ s.properties, child.id ≠ id) ∧
    ∀ focus component, Reports (reportOf (findings data set)) id focus component ↔
      Statements.deactivated ⟨shapes, id⟩ = false ∧
      (∃ target ∈ Statements.targets ⟨shapes, id⟩, focus ∈ target.nodes data) ∧
      ∃ c ∈ Statements.constraints ⟨shapes, id⟩, c.component = component ∧
        c.failures data [focus] ≠ [] := by
  have pathless := path_eq_none stated unsupported
  exact ⟨not_attached_of_pathless compiled pathless, fun _ _ => reports_pathless_iff compiled pathless⟩

end Pathless

/-- Whatever is reached from Tom has to be a literal. -/
def starShapes : Graph :=
  (∅ : Graph).insertMany [
    ⟨.iri "ex:shape", .iri (sh "targetNode"), tom⟩,
    ⟨.iri "ex:shape", .iri (sh "path"), .blank "b1"⟩,
    ⟨.blank "b1", .iri (sh "zeroOrMorePath"), .iri "ex:name"⟩,
    ⟨.iri "ex:shape", .iri (sh "nodeKind"), .iri (sh "Literal")⟩]

def starShape : Shape :=
  .mk (.iri "ex:shape") [.node tom] none [.nodeKind .literal (.iri (sh "Literal"))] .violation none
    false []

section

open scoped Listed

theorem path_starShapes : Statements.first? ⟨starShapes, .iri "ex:shape"⟩ "path" = some (.blank "b1") ∧
    path? starShapes (.blank "b1") = none := by
  simp [starShapes, Graph.object?]

theorem shape_star : Statements.shape ⟨starShapes, .iri "ex:shape"⟩ [] = starShape := by
  simp [starShapes, starShape, Graph.object?, Statements.nodeKind?, Term.iri?, NodeKind.ofIri?,
    NodeKind.all]

theorem ofGraph_star : ShapeSet.ofGraph starShapes = some { shapes := [starShape] } := by
  rw [← shape_star]
  refine ofGraph_alone (SortedSet.toList_eq_singleton fun x => ?_) ?_
    (Statements.skipped_eq_nil ?_) ?_ <;> simp [starShapes]

end

/-- Tom himself is no literal. -/
theorem failing_star : Statements.deactivated ⟨starShapes, .iri "ex:shape"⟩ = false ∧
    (∃ target ∈ Statements.targets ⟨starShapes, .iri "ex:shape"⟩, tom ∈ target.nodes ∅) ∧
    ∃ c ∈ Statements.constraints ⟨starShapes, .iri "ex:shape"⟩,
      c.component = sh "NodeKindConstraintComponent" ∧ c.failures ∅ [tom] ≠ [] := by
  rw [← Statements.shape_deactivated _ [], ← Statements.shape_targets _ [],
    ← Statements.shape_constraints _ [], shape_star]
  refine ⟨rfl, ⟨.node tom, .head _, .head _⟩, _, .head _, rfl, ?_⟩
  simp [Constraint.failures, Constraint.admitsAll, Constraint.admits, NodeKind.admits, tom,
    Term.isLiteral]

theorem reports_star : ShapeSet.ofGraph starShapes = some { shapes := [starShape] } ∧
    Statements.first? ⟨starShapes, .iri "ex:shape"⟩ "path" = some (.blank "b1") ∧
    path? starShapes (.blank "b1") = none ∧
    Reports (reportOf (findings ∅ { shapes := [starShape] })) (.iri "ex:shape") tom
      (sh "NodeKindConstraintComponent") := by
  obtain ⟨stated, unsupported⟩ := path_starShapes
  refine ⟨ofGraph_star, stated, unsupported, ?_⟩
  exact ((reports_unsupported_path ofGraph_star stated unsupported).2 tom _).mpr failing_star

/-- There are results of a shape whose path is not supported. -/
theorem exists_result_without_path : ∃ (shapes data : Graph) (set : ShapeSet) (id t : Term),
    ShapeSet.ofGraph shapes = some set ∧ t ∈ Statements.all ⟨shapes, id⟩ "path" ∧
    path? shapes t = none ∧
    ∃ focus component, Reports (reportOf (findings data set)) id focus component := by
  obtain ⟨stated, unsupported⟩ := path_starShapes
  exact ⟨starShapes, ∅, _, .iri "ex:shape", .blank "b1", ofGraph_star, List.mem_of_head? stated,
    unsupported, tom, _,
    (reports_pathless_iff ofGraph_star (path_eq_none stated unsupported)).mpr failing_star⟩

end RepoAudit.Shacl
