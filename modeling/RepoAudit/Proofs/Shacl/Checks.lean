import RepoAudit.Proofs.Shacl.Shapes
import RepoAudit.Shacl.Report

/-!
# Failing checks

What a validation has to find, without the report that it is written to: shapes are checked
constraint by constraint for each focus node. `findings_eq` shows that validation finds just that.
-/

namespace RepoAudit.Shacl

open Rdf

/-- A constraint of a shape that fails for a focus node, with the value at fault if it is one. -/
structure Check where
  shape : Shape
  focus : Term
  constraint : Constraint
  value : Option Term

/-! ### Shapes that are checked -/

mutual

/-- A shape and the shapes below it, unless a deactivated one cuts them off. -/
def Shape.active : Shape → List Shape
  | .mk id targets path constraints severity message deactivated properties =>
    if deactivated then []
    else .mk id targets path constraints severity message deactivated properties ::
      activeAll properties

def activeAll : List Shape → List Shape
  | [] => []
  | s :: rest => s.active ++ activeAll rest

end

theorem activeAll_eq : ∀ shapes : List Shape, activeAll shapes = shapes.flatMap Shape.active
  | [] => by simp [activeAll]
  | s :: rest => by rw [activeAll, activeAll_eq rest, List.flatMap_cons]

theorem Shape.active_eq (s : Shape) :
    s.active = if s.deactivated then [] else s :: s.properties.flatMap Shape.active := by
  cases s
  rw [Shape.active, activeAll_eq]
  rfl

/-- An active shape is the shape itself or active below it. -/
theorem Shape.mem_active_iff {s t : Shape} : t ∈ s.active ↔
    s.deactivated = false ∧ (t = s ∨ ∃ child ∈ s.properties, t ∈ child.active) := by
  rw [Shape.active_eq]
  cases s.deactivated <;> simp

/-- A deactivated shape has no active shapes. -/
theorem Shape.kept_of_active {s t : Shape} (active : t ∈ s.active) : s.deactivated = false :=
  (mem_active_iff.mp active).1

theorem Shape.self_mem_active {s : Shape} : s ∈ s.active ↔ s.deactivated = false :=
  ⟨kept_of_active, fun kept => mem_active_iff.mpr ⟨kept, .inl rfl⟩⟩

theorem Shape.Every.of_active {P : Shape → Prop} {s : Shape} (every : s.Every P) :
    ∀ t ∈ s.active, P t := by
  induction every with
  | intro here _ ih =>
    intro t active
    obtain ⟨-, rfl | ⟨child, attached, active⟩⟩ := Shape.mem_active_iff.mp active
    · exact here
    · exact ih child attached t active

/-! ### What fails -/

/-- The failures of one constraint: one for a missed count or expected value, one for each value
that fails any other constraint. -/
def Constraint.missed (g : Graph) (values : List Term) : Constraint → List (Option Term)
  | .minCount n => if values.length < n then [none] else []
  | .maxCount n => if n < values.length then [none] else []
  | .hasValue t => if t ∈ values then [] else [none]
  | c => (values.filter (!c.admits g ·)).map some

/-- The failing checks of a shape for a focus node. -/
def Shape.missed (g : Graph) (focus : Term) (s : Shape) : List Check :=
  s.constraints.flatMap fun c => (c.missed g (s.values g focus)).map fun v => ⟨s, focus, c, v⟩

/-- All failing checks of a data graph. -/
def failedChecks (g : Graph) (set : ShapeSet) : List Check :=
  (set.shapes.filter (!·.deactivated)).flatMap fun top =>
    (focusNodes g top).toList.flatMap fun focus => top.active.flatMap (Shape.missed g focus)

/-! ### Validation finds it -/

/-- The finding of a failing check. -/
def Check.finding (c : Check) : Finding :=
  ⟨c.shape, c.focus, c.value, c.constraint, c.shape.message.getD c.constraint.failure⟩

theorem failures_eq (g : Graph) (values : List Term) (c : Constraint) :
    c.failures g values = c.missed g values := by
  unfold Constraint.failures Constraint.missed Constraint.admitsAll
  -- Every value is admitted by the constraints that look at all values together.
  cases c with
  | minCount n => by_cases short : values.length < n <;> simp [Constraint.admits, short]
  | maxCount n => by_cases long : n < values.length <;> simp [Constraint.admits, long]
  | hasValue t => by_cases held : t ∈ values <;> simp [Constraint.admits, held]
  | _ => rfl

theorem ownFindings_eq (g : Graph) (focus : Term) (s : Shape) :
    ownFindings g focus s = (s.missed g focus).map Check.finding := by
  simp only [ownFindings, Shape.missed, failures_eq, List.map_flatMap, List.map_map]
  rfl

mutual

theorem shapeFindings_eq (g : Graph) (focus : Term) : ∀ s : Shape,
    shapeFindings g focus s = (s.active.flatMap (Shape.missed g focus)).map Check.finding
  | .mk id targets path constraints severity message deactivated properties => by
    rw [shapeFindings, Shape.active]
    split
    · rfl
    · rw [ownFindings_eq, propertyFindings_eq g focus properties, List.flatMap_cons,
        List.map_append]

theorem propertyFindings_eq (g : Graph) (focus : Term) : ∀ shapes : List Shape,
    propertyFindings g focus shapes =
      ((activeAll shapes).flatMap (Shape.missed g focus)).map Check.finding
  | [] => by simp [propertyFindings, activeAll]
  | s :: rest => by
    rw [propertyFindings, activeAll, shapeFindings_eq g focus s, propertyFindings_eq g focus rest,
      List.flatMap_append, List.map_append]

end

theorem flatMap_unless {α β : Type} (p : α → Bool) (f : α → List β) (xs : List α) :
    (xs.flatMap fun x => if p x then [] else f x) = (xs.filter (!p ·)).flatMap f := by
  induction xs with
  | nil => rfl
  | cons x rest ih => cases held : p x <;> simp [held, ih]

/-- Validation finds the failing checks, each as often as it occurs, and nothing else. -/
theorem findings_eq (g : Graph) (set : ShapeSet) :
    findings g set = (failedChecks g set).map Check.finding := by
  simp only [findings, failedChecks, flatMap_unless, shapeFindings_eq, List.map_flatMap]

/-! ### Where the terms of a check come from -/

theorem Constraint.mem_values_of_missed {g : Graph} {values : List Term} {c : Constraint}
    {v : Option Term} (missed : v ∈ c.missed g values) : ∀ u ∈ v, u ∈ values := by
  rintro u rfl
  unfold Constraint.missed at missed
  split at missed
  · split at missed <;> simp at missed
  · split at missed <;> simp at missed
  · split at missed <;> simp at missed
  · obtain ⟨x, kept, same⟩ := List.mem_map.mp missed
    obtain rfl := Option.some.inj same
    exact (List.mem_filter.mp kept).1

/-- A check fails if an active shape of the set misses one of its constraints at a focus node. -/
theorem mem_failedChecks_iff {g : Graph} {set : ShapeSet} {c : Check} : c ∈ failedChecks g set ↔
    ∃ top ∈ set.shapes, c.focus ∈ focusNodes g top ∧ c.shape ∈ top.active ∧
      c.constraint ∈ c.shape.constraints ∧
      c.value ∈ c.constraint.missed g (c.shape.values g c.focus) := by
  simp only [failedChecks, Shape.missed, List.mem_flatMap, List.mem_filter, List.mem_map,
    Bool.not_eq_true']
  constructor
  · rintro ⟨top, ⟨listed, -⟩, focus, selected, s, active, constraint, stated, v, missed, rfl⟩
    exact ⟨top, listed, selected, active, stated, missed⟩
  · rintro ⟨top, listed, selected, active, stated, missed⟩
    exact ⟨top, ⟨listed, Shape.kept_of_active active⟩, c.focus, selected, c.shape, active,
      c.constraint, stated, c.value, missed, rfl⟩

theorem mem_failedChecks {g : Graph} {set : ShapeSet} {c : Check} (failed : c ∈ failedChecks g set) :
    ∃ top ∈ set.shapes, c.focus ∈ focusNodes g top ∧ c.shape ∈ top.active ∧
      ∀ v ∈ c.value, v ∈ c.shape.values g c.focus := by
  obtain ⟨top, listed, selected, active, -, missed⟩ := mem_failedChecks_iff.mp failed
  exact ⟨top, listed, selected, active, Constraint.mem_values_of_missed missed⟩

end RepoAudit.Shacl
