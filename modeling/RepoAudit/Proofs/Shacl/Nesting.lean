import RepoAudit.Proofs.Shacl.Checks
import RepoAudit.Proofs.Shacl.Listed

/-!
# Property shapes inside property shapes

A property shape is checked at the focus node of the shape that it is attached to, also where that
shape has a path of its own. `findings_at_values_iff` says when this finds the same as checking it
at the values that the path reaches.
-/

namespace RepoAudit.Shacl

open Rdf

variable {g : Graph} {focus v : Term} {s child : Shape}

theorem propertyFindings_eq_flatMap (g : Graph) (focus : Term) (shapes : List Shape) :
    propertyFindings g focus shapes = shapes.flatMap (shapeFindings g focus) := by
  induction shapes with
  | nil => simp [propertyFindings]
  | cons s rest ih => rw [propertyFindings, ih, List.flatMap_cons]

/-- What a shape finds, and then what the attached ones find at the same node. -/
theorem shapeFindings_attached (g : Graph) (focus : Term) (s : Shape) :
    shapeFindings g focus s = if s.deactivated then []
      else ownFindings g focus s ++ s.properties.flatMap (shapeFindings g focus) := by
  cases s
  rw [shapeFindings, propertyFindings_eq_flatMap]
  rfl

/-- A finding is about the node that the shape was checked at. -/
theorem focus_of_mem {f : Finding} (found : f ∈ shapeFindings g focus s) : f.focus = focus := by
  rw [shapeFindings_eq, List.mem_map] at found
  obtain ⟨check, failed, rfl⟩ := found
  obtain ⟨t, -, failed⟩ := List.mem_flatMap.mp failed
  obtain ⟨c, -, failed⟩ := List.mem_flatMap.mp failed
  obtain ⟨value, -, rfl⟩ := List.mem_map.mp failed
  rfl

theorem nodup_values (g : Graph) (focus : Term) (s : Shape) : (s.values g focus).Nodup := by
  unfold Shape.values
  split
  · rename_i path _
    cases path with
    | predicate p => exact SortedSet.nodup_toList _
    | inverse p => exact Graph.nodup_subjects p focus
  · exact List.nodup_singleton focus

/-! ### At the values -/

/-- What a shape finds at the values of another. -/
def findingsAtValues (g : Graph) (focus : Term) (s child : Shape) : List Finding :=
  (s.values g focus).flatMap (shapeFindings g · child)

/-- Of findings at several nodes, those about one node are what was found there. -/
theorem filter_focus (g : Graph) (child : Shape) (nodes : List Term) (nodup : nodes.Nodup)
    (v : Term) : (nodes.flatMap (shapeFindings g · child)).filter (·.focus = v) =
      if v ∈ nodes then shapeFindings g v child else [] := by
  induction nodes with
  | nil => rfl
  | cons u rest ih =>
    obtain ⟨fresh, nodup⟩ := List.nodup_cons.mp nodup
    rw [List.flatMap_cons, List.filter_append, ih nodup]
    by_cases same : u = v
    · subst same
      have all : (shapeFindings g u child).filter (·.focus = u) = shapeFindings g u child :=
        List.filter_eq_self.mpr fun f found => decide_eq_true (focus_of_mem found)
      rw [all, if_neg fresh, if_pos (.head _), List.append_nil]
    · have none : (shapeFindings g u child).filter (·.focus = v) = [] := by
        apply List.filter_eq_nil_iff.mpr
        intro f found
        rw [focus_of_mem found]
        simpa using same
      simp [none, List.mem_cons, Ne.symm same]

/-- Findings at nodes of which none but `focus` finds anything are those at `focus`. -/
theorem flatMap_perm_of_focus (nodes : List Term) (nodup : nodes.Nodup)
    (only : ∀ v, shapeFindings g v child ≠ [] → (v ∈ nodes ↔ v = focus)) :
    (nodes.flatMap (shapeFindings g · child)).Perm (shapeFindings g focus child) := by
  have elsewhere (rest : List Term) (kept : ∀ v ∈ rest, v ∈ nodes ∧ v ≠ focus) :
      rest.flatMap (shapeFindings g · child) = [] := by
    apply List.flatMap_eq_nil_iff.mpr
    intro v member
    by_contra found
    exact (kept v member).2 ((only v found).mp (kept v member).1)
  by_cases there : focus ∈ nodes
  · have first : nodes.Perm (focus :: nodes.erase focus) := List.perm_cons_erase there
    refine (first.flatMap_right _).trans (.of_eq ?_)
    rw [List.flatMap_cons, elsewhere, List.append_nil]
    intro v member
    exact ⟨List.mem_of_mem_erase member, (List.Nodup.mem_erase_iff nodup).mp member |>.1⟩
  · have nothing : shapeFindings g focus child = [] := by
      by_contra found
      exact there ((only focus found).mpr rfl)
    rw [nothing, elsewhere]
    exact fun v member => ⟨member, fun same => there (same ▸ member)⟩

/-- A shape reports its own failures and those of the shapes attached to it, all at its focus node.
For an attached shape this is what SHACL asks for, the failures at each value, exactly if it fails
at no node that is a value and not the focus node, or the other way around. -/
theorem findings_at_values_iff (g : Graph) (focus : Term) (s : Shape) :
    shapeFindings g focus s = (if s.deactivated then []
      else ownFindings g focus s ++ s.properties.flatMap (shapeFindings g focus)) ∧
    ∀ child ∈ s.properties,
      (findingsAtValues g focus s child).Perm (shapeFindings g focus child) ↔
        ∀ v, shapeFindings g v child ≠ [] → (v ∈ s.values g focus ↔ v = focus) := by
  refine ⟨shapeFindings_attached g focus s, fun child _ => ⟨fun same v found => ?_, ?_⟩⟩
  · have at_v := same.filter (·.focus = v)
    have one := filter_focus g child [focus] (List.nodup_singleton focus) v
    rw [List.flatMap_singleton] at one
    rw [findingsAtValues, filter_focus g child _ (nodup_values g focus s), one] at at_v
    simp only [List.mem_singleton] at at_v
    by_cases value : v ∈ s.values g focus <;> by_cases here : v = focus
    · exact iff_of_true value here
    · rw [if_pos value, if_neg here] at at_v
      exact absurd at_v.eq_nil found
    · rw [if_neg value, if_pos here] at at_v
      exact absurd at_v.nil_eq.symm found
    · exact iff_of_false value here
  · exact flatMap_perm_of_focus _ (nodup_values g focus s)

/-! ### Owners of files -/

/-- The files of a project need an owner. -/
def ownerShapes : Graph :=
  (∅ : Graph).insertMany [
    ⟨.iri "ex:shape", .iri (sh "targetNode"), .iri "ex:project"⟩,
    ⟨.iri "ex:shape", .iri (sh "property"), .iri "ex:files"⟩,
    ⟨.iri "ex:files", .iri (sh "path"), .iri "ex:file"⟩,
    ⟨.iri "ex:files", .iri (sh "property"), .iri "ex:owners"⟩,
    ⟨.iri "ex:owners", .iri (sh "path"), .iri "ex:owner"⟩,
    ⟨.iri "ex:owners", .iri (sh "minCount"), .integer 1⟩]

/-- A project with one file. -/
def oneFile : Graph := (∅ : Graph).insert ⟨.iri "ex:project", .iri "ex:file", .iri "ex:main"⟩

def owners : Shape :=
  .mk (.iri "ex:owners") [] (some (.predicate (.iri "ex:owner"))) [.minCount 1] .violation none false []

def files : Shape :=
  .mk (.iri "ex:files") [] (some (.predicate (.iri "ex:file"))) [] .violation none false [owners]

def project : Shape :=
  .mk (.iri "ex:shape") [.node (.iri "ex:project")] none [] .violation none false [files]

/-- What compiling a shape comes to that has one property shape, and nothing that is skipped. -/
theorem compileShape_of_one {g : Graph} {id p : Term} {child : Shape}
    (attached : Statements.all ⟨g, id⟩ "property" = [p])
    (compiled : g.compileShape p = some (child, [])) (named : child.path.isSome = true)
    (supported : Statements.skipped ⟨g, id⟩ = []) :
    g.compileShape id = some (Statements.shape ⟨g, id⟩ [child], []) := by
  have listed : (Statements.all ⟨g, id⟩ "property").mapM g.compileShape = some [(child, [])] := by
    rw [attached, List.mapM_cons, compiled]
    rfl
  rw [compileShape_of_attached listed, supported]
  simp [named]

section

open scoped Listed

theorem roots_ownerShapes : (roots ownerShapes).toList = [.iri "ex:shape"] :=
  SortedSet.toList_eq_singleton fun x => by simp [ownerShapes]

theorem skipped_ownerShapes (id : Term) : Statements.skipped ⟨ownerShapes, id⟩ = [] :=
  Statements.skipped_eq_nil (by simp [ownerShapes])

theorem shape_owners : Statements.shape ⟨ownerShapes, .iri "ex:owners"⟩ [] = owners := by
  simp [ownerShapes, owners]

theorem shape_files : Statements.shape ⟨ownerShapes, .iri "ex:files"⟩ [owners] = files := by
  simp [ownerShapes, files]

theorem shape_project : Statements.shape ⟨ownerShapes, .iri "ex:shape"⟩ [files] = project := by
  simp [ownerShapes, project]

theorem compile_owners : ownerShapes.compileShape (.iri "ex:owners") = some (owners, []) := by
  have alone : Statements.all ⟨ownerShapes, .iri "ex:owners"⟩ "property" = [] := by
    simp [ownerShapes]
  rw [compileShape_alone alone, skipped_ownerShapes, shape_owners]

theorem compile_files : ownerShapes.compileShape (.iri "ex:files") = some (files, []) := by
  have attached : Statements.all ⟨ownerShapes, .iri "ex:files"⟩ "property" = [.iri "ex:owners"] := by
    simp [ownerShapes]
  rw [compileShape_of_one attached compile_owners rfl (skipped_ownerShapes _), shape_files]

theorem compile_project : ownerShapes.compileShape (.iri "ex:shape") = some (project, []) := by
  have attached : Statements.all ⟨ownerShapes, .iri "ex:shape"⟩ "property" = [.iri "ex:files"] := by
    simp [ownerShapes]
  rw [compileShape_of_one attached compile_files rfl (skipped_ownerShapes _), shape_project]

end

theorem ofGraph_ownerShapes : ShapeSet.ofGraph ownerShapes = some { shapes := [project] } := by
  rw [ShapeSet.ofGraph, roots_ownerShapes, List.mapM_cons, compile_project]
  rfl

/-- It is the file that lacks an owner, and the project that is reported. -/
theorem findings_ownerShapes : ∃ (shapes data : Graph) (set : ShapeSet),
    ShapeSet.ofGraph shapes = some set ∧ ∃ top ∈ set.shapes, ∃ s ∈ top.properties,
      ∃ child ∈ s.properties, ∃ focus : Term, s.path.isSome = true ∧
        (findings data set).map Finding.focus = [focus] ∧
        (shapeFindings data focus child).map Finding.focus = [focus] ∧
        (findingsAtValues data focus s child).map Finding.focus = [.iri "ex:main"] ∧
        ¬ (findingsAtValues data focus s child).Perm (shapeFindings data focus child) := by
  have one : (shapeFindings oneFile (.iri "ex:project") owners).map Finding.focus =
      [.iri "ex:project"] := by decide +kernel
  have other : (findingsAtValues oneFile (.iri "ex:project") files owners).map Finding.focus =
      [.iri "ex:main"] := by decide +kernel
  refine ⟨ownerShapes, oneFile, _, ofGraph_ownerShapes, _, .head _, files, .head _, owners,
    .head _, .iri "ex:project", rfl, ?_, one, other, fun same => ?_⟩
  · decide +kernel
  · have moved := same.map Finding.focus
    rw [one, other] at moved
    exact absurd (List.singleton_perm_singleton.mp moved) (by decide)

end RepoAudit.Shacl
