import Mathlib.Logic.Relation
import RepoAudit.Rdf.Graph

/-!
# What a search reaches

A search that never visits a term twice still reaches all that paths lead to: a path that comes back
to a term can be taken up again where it leaves it for the last time.
-/

namespace RepoAudit.Rdf

/-- An edge to one of the terms that are left. -/
def LeadsWithin (next : Term → List Term) (left : List Term) (a b : Term) : Prop :=
  b ∈ next a ∧ b ∈ left

variable {next : Term → List Term} {unseen stack domain start : List Term} {s t x : Term}

theorem mem_without : x ∈ without t unseen ↔ x ∈ unseen ∧ x ≠ t := by
  simp [without]

/-- A path leads to `t` itself, or it can be walked without `t`, if need be from one of the terms
that follow `t`. -/
theorem path_without (path : Relation.ReflTransGen (LeadsWithin next unseen) s x)
    (there : s ∈ unseen) : x = t ∨ ∃ s', (s' = s ∨ s' ∈ next t) ∧ s' ∈ without t unseen ∧
      Relation.ReflTransGen (LeadsWithin next (without t unseen)) s' x := by
  induction path with
  | refl =>
    by_cases same : s = t
    · exact .inl same
    · exact .inr ⟨s, .inl rfl, mem_without.mpr ⟨there, same⟩, .refl⟩
  | @tail y z _ edge ih =>
    obtain ⟨follows, left⟩ := edge
    by_cases same : z = t
    · exact .inl same
    · have kept : z ∈ without t unseen := mem_without.mpr ⟨left, same⟩
      rcases ih with rfl | ⟨s', begins, there', path'⟩
      · exact .inr ⟨z, .inr follows, kept, .refl⟩
      · exact .inr ⟨s', begins, there', path'.tail ⟨follows, kept⟩⟩

theorem path_mono (path : Relation.ReflTransGen (LeadsWithin next (without t unseen)) s x) :
    Relation.ReflTransGen (LeadsWithin next unseen) s x :=
  Relation.ReflTransGen.mono (fun _ _ edge => ⟨edge.1, (mem_without.mp edge.2).1⟩) _ _ path

/-- A search visits what it reaches from the stack through terms that it has not seen. -/
theorem mem_visit : x ∈ visit next unseen stack ↔
    ∃ s ∈ stack, s ∈ unseen ∧ Relation.ReflTransGen (LeadsWithin next unseen) s x := by
  fun_induction visit next unseen stack with
  | case1 => simp
  | case2 unseen t rest there ih =>
    rw [List.mem_cons, ih]
    constructor
    · rintro (rfl | ⟨s, member, left, path⟩)
      · exact ⟨x, List.mem_cons_self, there, .refl⟩
      · have unseen' := (mem_without.mp left).1
        rcases List.mem_append.mp member with follows | later
        · exact ⟨t, List.mem_cons_self, there, .head ⟨follows, unseen'⟩ (path_mono path)⟩
        · exact ⟨s, List.mem_cons_of_mem t later, unseen', path_mono path⟩
    · rintro ⟨s, member, left, path⟩
      refine (path_without path left).imp_right ?_
      rintro ⟨s', begins, left', path'⟩
      refine ⟨s', List.mem_append.mpr ?_, left', path'⟩
      rcases begins with rfl | follows
      · have other : s' ≠ t := (mem_without.mp left').2
        exact .inr ((List.mem_cons.mp member).resolve_left other)
      · exact .inl follows
  | case3 unseen t rest gone ih =>
    rw [ih]
    constructor
    · rintro ⟨s, member, left, path⟩
      exact ⟨s, List.mem_cons_of_mem t member, left, path⟩
    · rintro ⟨s, member, left, path⟩
      have other : s ≠ t := fun same => gone (same ▸ left)
      exact ⟨s, (List.mem_cons.mp member).resolve_left other, left, path⟩

/-- Where the domain holds all that edges lead to, all that can be reached is. -/
theorem mem_reachable (closed : ∀ a, ∀ b ∈ next a, b ∈ domain) :
    x ∈ reachable next domain start ↔
      ∃ s ∈ start, Relation.ReflTransGen (fun a b => b ∈ next a) s x := by
  rw [reachable, mem_visit]
  constructor
  · rintro ⟨s, member, -, path⟩
    exact ⟨s, member, Relation.ReflTransGen.mono (fun _ _ edge => edge.1) _ _ path⟩
  · rintro ⟨s, member, path⟩
    refine ⟨s, member, List.mem_append_left _ member, ?_⟩
    exact Relation.ReflTransGen.mono
      (fun a b edge => ⟨edge, List.mem_append_right _ (closed a b edge)⟩) _ _ path

end RepoAudit.Rdf
