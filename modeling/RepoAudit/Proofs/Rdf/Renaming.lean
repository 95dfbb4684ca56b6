import Mathlib.Data.Set.Finite.List
import Mathlib.Logic.Equiv.Fintype
import RepoAudit.Rdf.Graph

/-!
# Renaming of blank nodes

Labels of blank nodes are renamed by functions. One that keeps different labels of a graph apart can
be extended to a permutation of all labels, which a graph is carried along by.
-/

namespace RepoAudit.Rdf

/-- Renames a blank node. -/
def Term.rename (f : String → String) : Term → Term
  | .blank label => .blank (f label)
  | t => t

def Triple.rename (f : String → String) (t : Triple) : Triple :=
  ⟨t.subject.rename f, t.predicate.rename f, t.object.rename f⟩

/-- The labels of the blank nodes of a graph. -/
def Graph.labels (g : Graph) : Set String :=
  {label | ∃ t ∈ g, t.subject = .blank label ∨ t.object = .blank label}

def Triple.Mentions (t : Triple) (label : String) : Prop :=
  t.subject = .blank label ∨ t.predicate = .blank label ∨ t.object = .blank label

/-- The labels of a graph, those in the place of a predicate included. -/
def Graph.mentioned (g : Graph) : Set String := {label | ∃ t ∈ g, t.Mentions label}

theorem Term.rename_of_not_isBlank {u : Term} (other : u.isBlank = false) (f : String → String) :
    u.rename f = u := by
  cases u with
  | blank label => cases other
  | iri => rfl
  | literal => rfl

theorem Term.rename_eq_blank {f : String → String} {u : Term} {label : String} :
    u.rename f = .blank label ↔ ∃ old, u = .blank old ∧ f old = label := by
  cases u <;> simp [Term.rename]

theorem Triple.mentions_rename {f : String → String} {t : Triple} {label : String} :
    (t.rename f).Mentions label ↔ ∃ old, t.Mentions old ∧ f old = label := by
  simp only [Triple.Mentions, Triple.rename, Term.rename_eq_blank, or_and_right, exists_or]

theorem Term.rename_id (u : Term) : u.rename id = u := by cases u <;> rfl

theorem Triple.rename_id (t : Triple) : t.rename id = t := by
  simp only [Triple.rename, Term.rename_id]

/-! ### Labels that matter -/

/-- The label of a term, if it has one, is one of `known`. -/
def Term.Within (known : Set String) (u : Term) : Prop := ∀ label, u = .blank label → label ∈ known

theorem Term.Within.rename_congr {known : Set String} {u : Term} (within : u.Within known)
    {f f' : String → String} (agree : Set.EqOn f f' known) : u.rename f = u.rename f' := by
  cases u with
  | blank label => exact congrArg Term.blank (agree (within label rfl))
  | iri => rfl
  | literal => rfl

theorem Graph.within_mentioned {g : Graph} {t : Triple} (member : t ∈ g) :
    t.subject.Within g.mentioned ∧ t.predicate.Within g.mentioned ∧ t.object.Within g.mentioned :=
  ⟨fun _ same => ⟨t, member, .inl same⟩, fun _ same => ⟨t, member, .inr (.inl same)⟩,
    fun _ same => ⟨t, member, .inr (.inr same)⟩⟩

theorem Graph.finite_mentioned (g : Graph) : g.mentioned.Finite := by
  let terms := g.triples.flatMap fun t => [t.subject, t.predicate, t.object]
  have blanks : {label | Term.blank label ∈ terms}.Finite :=
    (List.finite_toSet terms).preimage fun _ _ _ _ same => Term.blank.inj same
  refine blanks.subset ?_
  rintro label ⟨t, member, mentions⟩
  refine List.mem_flatMap.mpr ⟨t, Graph.mem_triples.mpr member, ?_⟩
  rcases mentions with same | same | same <;> simp [same]

/-- What is injective on finitely many labels is part of a permutation. -/
theorem exists_permutation {known : Set String} (finite : known.Finite) {f : String → String}
    (injective : Set.InjOn f known) : ∃ π : Equiv.Perm String, Set.EqOn f π known := by
  have : Finite known := finite
  obtain ⟨π, extends_⟩ := Equiv.Perm.exists_extending_pair (fun l : known => l.1) (fun l => f l.1)
    Subtype.val_injective fun a b same => Subtype.ext (injective a.2 b.2 same)
  exact ⟨π, fun label member => (extends_ ⟨label, member⟩).symm⟩

/-! ### Permutations -/

section Permutations

variable (π : Equiv.Perm String)

theorem Term.symm_rename (u : Term) : (u.rename π).rename π.symm = u := by
  cases u <;> simp [Term.rename]

theorem Term.rename_symm (u : Term) : (u.rename π.symm).rename π = u := by
  cases u <;> simp [Term.rename]

theorem Term.rename_injective : Function.Injective (Term.rename π) := by
  intro u v same
  rw [← u.symm_rename π, same, v.symm_rename π]

/-- Every term is a renamed one. -/
theorem Term.exists_rename {P : Term → Prop} : (∃ u, P u) ↔ ∃ u : Term, P (u.rename π) := by
  constructor
  · rintro ⟨u, holds⟩
    exact ⟨u.rename π.symm, by rwa [u.rename_symm π]⟩
  · rintro ⟨u, holds⟩
    exact ⟨_, holds⟩

theorem Triple.rename_injective : Function.Injective (Triple.rename π) := by
  rintro ⟨s, p, o⟩ ⟨s', p', o'⟩ same
  obtain ⟨subject, predicate, object⟩ := Triple.mk.inj same
  obtain rfl : s = s' := Term.rename_injective π subject
  obtain rfl : p = p' := Term.rename_injective π predicate
  obtain rfl : o = o' := Term.rename_injective π object
  rfl

/-- `h` holds what becomes of the triples of `g`. -/
def Graph.Carried (g h : Graph) : Prop := ∀ t : Triple, t.rename π ∈ h ↔ t ∈ g

end Permutations

variable {π : Equiv.Perm String} {g h : Graph}

theorem Graph.carried_of_renamed {f : String → String}
    (renamed : ∀ t, t ∈ h ↔ ∃ u ∈ g, t = u.rename f)
    (agree : Set.EqOn f π g.mentioned) : g.Carried π h := by
  have moved {u : Triple} (member : u ∈ g) : u.rename f = u.rename π := by
    obtain ⟨subject, predicate, object⟩ := Graph.within_mentioned member
    simp only [Triple.rename, subject.rename_congr agree, predicate.rename_congr agree,
      object.rename_congr agree]
  intro t
  rw [renamed]
  constructor
  · rintro ⟨u, member, same⟩
    rw [moved member] at same
    rwa [Triple.rename_injective π same]
  · intro member
    exact ⟨t, member, (moved member).symm⟩

/-- A graph whose labels stay the same is carried to itself. -/
theorem Graph.carried_self (fixed : Set.EqOn id π g.mentioned) : g.Carried π g := by
  refine Graph.carried_of_renamed (fun t => ?_) fixed
  simp only [Triple.rename_id, exists_eq_right']

end RepoAudit.Rdf
