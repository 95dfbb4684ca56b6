import RepoAudit.Proofs.Rdf.Renaming
import RepoAudit.Proofs.Shacl.Checks
import RepoAudit.Proofs.Shacl.Instances

/-!
# Validation of renamed data

A permutation of labels that moves no term of the shapes can be applied before a validation or after
it. Each question that validation asks of a graph is followed through: hierarchies, instances, focus
nodes, values and the failures of a constraint.
-/

namespace RepoAudit.Shacl

open Rdf

/-! ### Paths and hierarchies -/

section Carried

variable {π : Equiv.Perm String} {g h : Graph}

theorem transGen_rename {r r' : Term → Term → Prop}
    (moved : ∀ a b, r' (a.rename π) (b.rename π) ↔ r a b) {a b : Term} :
    Relation.TransGen r' (a.rename π) (b.rename π) ↔ Relation.TransGen r a b := by
  constructor
  · intro path
    have back : ∀ x y, r' x y → r (x.rename π.symm) (y.rename π.symm) := by
      intro x y edge
      rwa [← moved, Term.rename_symm, Term.rename_symm]
    have walked : Relation.TransGen r ((a.rename π).rename π.symm) ((b.rename π).rename π.symm) :=
      path.lift _ back
    rwa [Term.symm_rename, Term.symm_rename] at walked
  · exact fun path => path.lift _ fun x y edge => (moved x y).mpr edge

theorem reflTransGen_rename {r r' : Term → Term → Prop}
    (moved : ∀ a b, r' (a.rename π) (b.rename π) ↔ r a b) {a b : Term} :
    Relation.ReflTransGen r' (a.rename π) (b.rename π) ↔ Relation.ReflTransGen r a b := by
  rw [Relation.reflTransGen_iff_eq_or_transGen, Relation.reflTransGen_iff_eq_or_transGen,
    transGen_rename moved]
  exact or_congr_left (Term.rename_injective π).eq_iff

theorem states_rename {gs hs : List Graph} (carried : List.Forall₂ (Graph.Carried π) gs hs)
    (predicate : String) (low high : Term) :
    States hs predicate (low.rename π) (high.rename π) ↔ States gs predicate low high := by
  induction carried with
  | nil => simp [States]
  | @cons g h gs hs first _ ih =>
    have here := first ⟨low, .iri predicate, high⟩
    simp only [States, List.exists_mem_cons_iff] at ih ⊢
    exact or_congr here ih

theorem below_rename {gs hs : List Graph} (carried : List.Forall₂ (Graph.Carried π) gs hs)
    (predicate : String) (low high : Term) :
    Below hs predicate (low.rename π) (high.rename π) ↔ Below gs predicate low high := by
  exact and_congr (transGen_rename (states_rename carried predicate))
    (Term.rename_injective π).ne_iff

theorem instanceOf_rename (carried : g.Carried π h) (node c : Term) :
    InstanceOf h (node.rename π) (c.rename π) ↔ InstanceOf g node c := by
  have states := states_rename (.cons carried .nil) (rdfs "subClassOf")
  rw [InstanceOf, Term.exists_rename π]
  exact exists_congr fun type => and_congr
    (states_rename (.cons carried .nil) (rdf "type") node type) (reflTransGen_rename states)

/-- What a graph entails is carried along with it. -/
theorem carried_entail {os os' : List Graph} (carried : g.Carried π h)
    (ontologies : List.Forall₂ (Graph.Carried π) os os') :
    (entail g os).Carried π (entail h os') := by
  have below := below_rename (.cons carried ontologies)
  have lifted (t : Triple) : Lifted h os' (t.rename π) ↔ Lifted g os t := by
    refine or_congr (carried t) ?_
    rw [Term.exists_rename π]
    exact exists_congr fun p => and_congr (carried ⟨t.subject, p, t.object⟩) (below _ p t.predicate)
  intro t
  rw [mem_entail, mem_entail]
  have type : (t.rename π).predicate = .iri (rdf "type") ↔ t.predicate = .iri (rdf "type") :=
    (Term.rename_injective π).eq_iff (b := .iri (rdf "type"))
  refine or_congr (lifted t) (and_congr type ?_)
  rw [Term.exists_rename π]
  exact exists_congr fun c => and_congr (lifted ⟨t.subject, .iri (rdf "type"), c⟩)
    (below _ c t.object)

/-! ### What a shape asks for -/

/-- The term that a target names. -/
def Target.term : Target → Term
  | .ofClass c => c
  | .node n => n
  | .subjectsOf p => p
  | .objectsOf p => p

/-- The terms that a constraint looks for. -/
def Constraint.terms : Constraint → List Term
  | .ofClass c => [c]
  | .isIn allowed => allowed
  | .hasValue t => [t]
  | _ => []

/-- The permutation moves no term that the shape names. -/
structure Shape.FixedBy (π : Equiv.Perm String) (s : Shape) : Prop where
  targets : ∀ target ∈ s.targets, target.term.rename π = target.term
  constraints : ∀ c ∈ s.constraints, ∀ u ∈ c.terms, u.rename π = u

theorem perm_map_rename {l l' : List Term} (nodup : l.Nodup) (nodup' : l'.Nodup)
    (same : ∀ u, u.rename π ∈ l' ↔ u ∈ l) : l'.Perm (l.map (·.rename π)) := by
  have distinct : (l.map (·.rename π)).Nodup := nodup.map (Term.rename_injective π)
  refine (List.perm_ext_iff_of_nodup nodup' distinct).mpr fun u => ?_
  rw [List.mem_map]
  constructor
  · intro member
    refine ⟨u.rename π.symm, ?_, u.rename_symm π⟩
    rwa [← same, u.rename_symm π]
  · rintro ⟨v, member, rfl⟩
    exact (same v).mpr member

theorem mem_nodes_rename (carried : g.Carried π h) {target : Target}
    (fixed : target.term.rename π = target.term) (u : Term) :
    u.rename π ∈ target.nodes h ↔ u ∈ target.nodes g := by
  cases target with
  | ofClass c =>
    have fixed : c.rename π = c := fixed
    have moved := instanceOf_rename carried u c
    rw [fixed] at moved
    simp only [Target.nodes, SortedSet.mem_toList, mem_instancesOf, moved]
  | node n =>
    have fixed : n.rename π = n := fixed
    simp only [Target.nodes, List.mem_singleton]
    constructor
    · intro same
      exact Term.rename_injective π (same.trans fixed.symm)
    · rintro rfl
      exact fixed
  | subjectsOf p =>
    have fixed : p.rename π = p := fixed
    simp only [Target.nodes, SortedSet.mem_toList, Graph.mem_subjectsWith]
    rw [Term.exists_rename π]
    refine exists_congr fun o => ?_
    have moved := carried ⟨u, p, o⟩
    rwa [Triple.rename, fixed] at moved
  | objectsOf p =>
    have fixed : p.rename π = p := fixed
    simp only [Target.nodes, SortedSet.mem_toList, Graph.mem_objectsWith]
    rw [Term.exists_rename π]
    refine exists_congr fun s => ?_
    have moved := carried ⟨s, p, u⟩
    rwa [Triple.rename, fixed] at moved

theorem focusNodes_rename (carried : g.Carried π h) {s : Shape} (fixed : s.FixedBy π) :
    (focusNodes h s).toList.Perm ((focusNodes g s).toList.map (·.rename π)) := by
  refine perm_map_rename (SortedSet.nodup_toList _) (SortedSet.nodup_toList _) fun u => ?_
  simp only [focusNodes, SortedSet.mem_toList, SortedSet.mem_ofList, List.mem_flatMap]
  refine exists_congr fun target => and_congr_right fun stated => ?_
  exact mem_nodes_rename carried (fixed.targets target stated) u

theorem values_rename (carried : g.Carried π h) {s : Shape} (named : s.PathNamed) (focus : Term) :
    (s.values h (focus.rename π)).Perm ((s.values g focus).map (·.rename π)) := by
  unfold Shape.values
  cases found : s.path with
  | none => exact .refl _
  | some path =>
    obtain ⟨iri, rfl | rfl⟩ := named path found
    · refine perm_map_rename (SortedSet.nodup_toList _) (SortedSet.nodup_toList _) fun u => ?_
      exact Graph.mem_objects.trans ((carried ⟨focus, .iri iri, u⟩).trans Graph.mem_objects.symm)
    · refine perm_map_rename (Graph.nodup_subjects _ _) (Graph.nodup_subjects _ _) fun u => ?_
      exact Graph.mem_subjects.trans ((carried ⟨u, .iri iri, focus⟩).trans Graph.mem_subjects.symm)

/-! ### What fails -/

/-- A list of terms that stay where they are holds a renamed term if it holds the term. -/
theorem contains_rename {terms : List Term} (fixed : ∀ u ∈ terms, u.rename π = u) (v : Term) :
    terms.contains (v.rename π) = terms.contains v := by
  rw [Bool.eq_iff_iff, List.contains_iff_mem, List.contains_iff_mem]
  constructor
  · intro member
    rwa [Term.rename_injective π (fixed _ member)] at member
  · intro member
    rwa [fixed v member]

theorem admits_rename (carried : g.Carried π h) {c : Constraint}
    (fixed : ∀ u ∈ c.terms, u.rename π = u) (v : Term) :
    c.admits h (v.rename π) = c.admits g v := by
  cases c with
  | ofClass c =>
    have moved := instanceOf_rename carried v c
    rw [fixed c (.head _)] at moved
    rw [Bool.eq_iff_iff]
    exact isInstance_iff.trans (moved.trans isInstance_iff.symm)
  | isIn allowed => exact contains_rename fixed v
  | _ => cases v <;> rfl

/-- A constraint fails alike for renamed values. -/
theorem missed_rename (carried : g.Carried π h) {c : Constraint}
    (fixed : ∀ u ∈ c.terms, u.rename π = u) {values values' : List Term}
    (moved : values'.Perm (values.map (·.rename π))) :
    (c.missed h values').Perm ((c.missed g values).map (Option.map (·.rename π))) := by
  have length : values'.length = values.length := moved.length_eq.trans (List.length_map _)
  have each : ((values'.filter (!c.admits h ·)).map some).Perm
      (((values.filter (!c.admits g ·)).map some).map (Option.map (·.rename π))) := by
    refine ((moved.filter _).map some).trans (.of_eq ?_)
    rw [List.filter_map, List.map_map, List.map_map]
    refine congrArg₂ List.map rfl (List.filter_congr fun v _ => ?_)
    exact congrArg (!·) (admits_rename carried fixed v)
  cases c with
  | minCount n =>
    simp only [Constraint.missed, length]
    split <;> exact .refl _
  | maxCount n =>
    simp only [Constraint.missed, length]
    split <;> exact .refl _
  | hasValue t =>
    have held : t.rename π ∈ values.map (·.rename π) ↔ t ∈ values :=
      List.mem_map_of_injective (Term.rename_injective π)
    rw [fixed t (.head _), ← moved.mem_iff] at held
    simp only [Constraint.missed, held]
    split <;> exact .refl _
  | _ => exact each

/-! ### Checks -/

def Check.rename (f : String → String) (c : Check) : Check :=
  { c with focus := c.focus.rename f, value := c.value.map (·.rename f) }

theorem shape_missed_rename (carried : g.Carried π h) {s : Shape} (named : s.PathNamed)
    (fixed : s.FixedBy π) (focus : Term) :
    (s.missed h (focus.rename π)).Perm ((s.missed g focus).map (Check.rename π)) := by
  unfold Shape.missed
  rw [List.map_flatMap]
  refine List.Perm.flatMap_left _ fun c stated => ?_
  have missed := missed_rename carried (fixed.constraints c stated)
    (values_rename carried named focus)
  have placed := missed.map fun v => (⟨s, focus.rename π, c, v⟩ : Check)
  rw [List.map_map] at placed ⊢
  exact placed

/-- The failing checks of renamed data are those of the data, renamed. -/
theorem failedChecks_rename (carried : g.Carried π h) {set : ShapeSet}
    (named : set.Every Shape.PathNamed) (fixed : set.Every (Shape.FixedBy π)) :
    (failedChecks h set).Perm ((failedChecks g set).map (Check.rename π)) := by
  unfold failedChecks
  rw [List.map_flatMap]
  refine List.Perm.flatMap_left _ fun top listed => ?_
  have known := (List.mem_filter.mp listed).1
  refine ((focusNodes_rename carried (fixed top known).here).flatMap_right _).trans ?_
  rw [List.flatMap_map, List.map_flatMap]
  refine List.Perm.flatMap_left _ fun focus _ => ?_
  rw [List.map_flatMap]
  exact List.Perm.flatMap_left _ fun s active => shape_missed_rename carried
    ((named top known).of_active s active) ((fixed top known).of_active s active) focus

end Carried
end RepoAudit.Shacl
