import Mathlib.Data.Set.Card
import Mathlib.Logic.Relation
import RepoAudit.Shacl.Compile

/-!
# When compiling shapes ends

`compileShape` follows `sh:property` wherever it leads. `ofGraph_isSome_iff_acyclic` shows that
compiling a shapes graph ends exactly if no shape that it reaches is attached to itself.
-/

namespace RepoAudit.Shacl

open Rdf Relation

/-- A shape has a property shape attached to it. -/
def Attaches (g : Graph) (s p : Term) : Prop := ⟨s, .iri (sh "property"), p⟩ ∈ g

/-- What is attached to a shape, directly or through others, and the shape itself. -/
def attachedBelow (g : Graph) (s : Term) : Set Term := { t | ReflTransGen (Attaches g) s t }

/-- Nothing below a shape is attached to itself, directly or through others. -/
def AcyclicBelow (g : Graph) (s : Term) : Prop :=
  ∀ t ∈ attachedBelow g s, ¬ TransGen (Attaches g) t t

theorem mem_all_property {g : Graph} {s p : Term} :
    p ∈ Statements.all ⟨g, s⟩ "property" ↔ Attaches g s p :=
  Graph.mem_objects

/-! ### Results along a list -/

theorem mapM_isSome_iff {α β : Type} {f : α → Option β} :
    ∀ {xs : List α}, (xs.mapM f).isSome = true ↔ ∀ x ∈ xs, (f x).isSome = true
  | [] => by simp
  | x :: rest => by
    have ih : (rest.mapM f).isSome = true ↔ ∀ x ∈ rest, (f x).isSome = true := mapM_isSome_iff
    rw [List.forall_mem_cons, ← ih, List.mapM_cons]
    cases f x <;> cases rest.mapM f <;> simp

/-! ### One shape -/

theorem compileShape_isSome_iff (g : Graph) (s : Term) :
    (g.compileShape s).isSome = true ↔ ∀ p, Attaches g s p → (g.compileShape p).isSome = true := by
  rw [Graph.compileShape]
  simp only [← mem_all_property]
  rw [← mapM_isSome_iff]
  cases (Statements.all ⟨g, s⟩ "property").mapM fun p => g.compileShape p <;> simp

/-- A result is only reached if every descent along attached shapes ends. -/
theorem acc_of_compiled (g : Graph) (s : Term) (r : Shape × List (Term × String))
    (compiled : g.compileShape s = some r) : Acc (fun p s => Attaches g s p) s := by
  refine Graph.compileShape.partial_correctness g (fun s _ => Acc (fun p s => Attaches g s p) s) ?_
    s r compiled
  intro approximation known s r found
  obtain ⟨children, listed, -⟩ := Option.bind_eq_some_iff.mp found
  refine Acc.intro s fun p attached => ?_
  have each := mapM_isSome_iff.mp (Option.isSome_of_eq_some listed) p (mem_all_property.mpr attached)
  obtain ⟨r', found'⟩ := Option.isSome_iff_exists.mp each
  exact known p r' found'

theorem compileShape_isSome_iff_acc (g : Graph) (s : Term) :
    (g.compileShape s).isSome = true ↔ Acc (fun p s => Attaches g s p) s := by
  constructor
  · intro ends
    obtain ⟨r, compiled⟩ := Option.isSome_iff_exists.mp ends
    exact acc_of_compiled g s r compiled
  · intro descends
    induction descends with
    | intro s _ ih => exact (compileShape_isSome_iff g s).mpr ih

/-! ### Cycles -/

theorem attachedBelow_finite (g : Graph) (s : Term) : (attachedBelow g s).Finite := by
  refine ((g.objectsWith (.iri (sh "property"))).toList.finite_toSet.insert s).subset ?_
  intro t below
  rcases below.cases_tail with same | ⟨u, -, attached⟩
  · exact .inl same
  · exact .inr (Graph.mem_objectsWith.mpr ⟨u, attached⟩)

/-- A descent below shapes without cycles leaves ever fewer shapes below it. -/
theorem acc_of_acyclicBelow (g : Graph) (s : Term) (acyclic : AcyclicBelow g s) :
    Acc (fun p s => Attaches g s p) s := by
  induction size : (attachedBelow g s).ncard using Nat.strong_induction_on generalizing s with
  | _ n ih =>
    subst size
    refine Acc.intro s fun p attached => ih _ ?_ p ?_ rfl
    · refine Set.ncard_lt_ncard ⟨fun t below => below.head attached, fun all => ?_⟩
        (attachedBelow_finite g s)
      have back : ReflTransGen (Attaches g) p s := all ReflTransGen.refl
      exact acyclic s .refl (TransGen.head' attached back)
    · exact fun t below => acyclic t (below.head attached)

theorem acyclic_of_acc {g : Graph} {s : Term} (descends : Acc (fun p s => Attaches g s p) s) :
    ¬ TransGen (Attaches g) s s := by
  induction descends with
  | intro s _ ih =>
    intro cycle
    obtain ⟨p, attached, back⟩ := TransGen.head'_iff.mp cycle
    exact ih p attached (TransGen.tail' back attached)

theorem acc_iff_acyclicBelow (g : Graph) (s : Term) :
    Acc (fun p s => Attaches g s p) s ↔ AcyclicBelow g s := by
  refine ⟨fun descends t below => ?_, acc_of_acyclicBelow g s⟩
  induction below using ReflTransGen.head_induction_on with
  | refl => exact acyclic_of_acc descends
  | head attached _ ih => exact ih (descends.inv attached)

/-! ### Shapes graphs -/

theorem ofGraph_isSome_iff (g : Graph) :
    (ShapeSet.ofGraph g).isSome = true ↔ ∀ root ∈ roots g, (g.compileShape root).isSome = true := by
  simp only [← SortedSet.mem_toList]
  rw [← mapM_isSome_iff, ShapeSet.ofGraph]
  cases (roots g).toList.mapM g.compileShape <;> simp

/-- Compiling a shapes graph ends exactly if no root of it leads along `sh:property` to a shape
that is attached to itself, directly or through others. -/
theorem ofGraph_isSome_iff_acyclic (g : Graph) :
    (ShapeSet.ofGraph g).isSome = true ↔ ∀ root ∈ roots g, AcyclicBelow g root := by
  rw [ofGraph_isSome_iff]
  refine forall₂_congr fun root _ => ?_
  rw [compileShape_isSome_iff_acc, acc_iff_acyclicBelow]

/-- A shapes graph with one shape, which is its own property shape. -/
def selfAttached : Graph :=
  let shape := Term.iri "http://example.org/S"
  (∅ : Graph).insertMany [⟨shape, .iri (rdf "type"), .iri (sh "NodeShape")⟩,
    ⟨shape, .iri (sh "property"), shape⟩]

theorem ofGraph_selfAttached : ShapeSet.ofGraph selfAttached = none := by
  have root : .iri "http://example.org/S" ∈ roots selfAttached := by
    simp [roots, Graph.mem_subjects, selfAttached, Graph.mem_insertMany]
  have attached : Attaches selfAttached (.iri "http://example.org/S") (.iri "http://example.org/S") := by
    simp [Attaches, selfAttached, Graph.mem_insertMany]
  rw [← Option.not_isSome_iff_eq_none, ofGraph_isSome_iff]
  intro ends
  exact acyclic_of_acc ((compileShape_isSome_iff_acc _ _).mp (ends _ root)) (.single attached)

end RepoAudit.Shacl
