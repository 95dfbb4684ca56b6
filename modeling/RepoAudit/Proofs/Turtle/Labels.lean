import Std.Data.String.ToNat
import RepoAudit.Proofs.Rdf.Renaming
import RepoAudit.Proofs.Turtle.Terms

/-!
# Labels of blank nodes

The reader makes a blank node for each new label. What it has read so far is what was written up to
a renaming of labels, which later labels do not change.
-/

namespace RepoAudit.Rdf.Turtle

/-- The label that a blank node has once it has been read. -/
def nameOf (labels : SortedMap String Term) (label : String) : String :=
  match labels.get? label with
  | some (.blank name) => name
  | _ => label

/-- Whether the label of a term, if it has one, is known. -/
def Labelled (labels : SortedMap String Term) (u : Term) : Prop :=
  ∀ label, u = .blank label → (labels.get? label).isSome

/-- Labels are only added. -/
def Extends (labels more : SortedMap String Term) : Prop :=
  ∀ label node, labels.get? label = some node → more.get? label = some node

theorem Extends.refl (labels : SortedMap String Term) : Extends labels labels := fun _ _ found => found

theorem Extends.trans {first second third : SortedMap String Term} (more : Extends first second)
    (more' : Extends second third) : Extends first third :=
  fun label node found => more' label node (more label node found)

theorem extends_insert {labels : SortedMap String Term} {label : String}
    (fresh : labels.get? label = none) (node : Term) : Extends labels (labels.insert label node) := by
  intro other known found
  rw [SortedMap.get?_insert, if_neg, found]
  rintro rfl
  rw [fresh] at found
  cases found

variable {labels more : SortedMap String Term}

theorem Labelled.extend {u : Term} (labelled : Labelled labels u) (extended : Extends labels more) :
    Labelled more u := by
  intro label same
  obtain ⟨node, found⟩ := Option.isSome_iff_exists.mp (labelled label same)
  rw [extended label node found]
  rfl

/-- Terms that have been read keep their names. -/
theorem rename_extends {u : Term} (labelled : Labelled labels u) (extended : Extends labels more) :
    u.rename (nameOf more) = u.rename (nameOf labels) := by
  cases u with
  | iri => rfl
  | literal => rfl
  | blank label =>
    obtain ⟨node, found⟩ := Option.isSome_iff_exists.mp (labelled label rfl)
    simp only [Term.rename, nameOf, found, extended label node found]

/-! ### What the reader knows -/

/-- What the reader knows when it has read the prefixes `declared` and the triples `done`. -/
structure Knows (declared : SortedMap String String) (done : List Triple) (s : State) : Prop where
  base : s.base = none
  prefixes : s.prefixes = declared
  kept : s.graph.prefixes = declared
  numbered : ∀ label node, s.labels.get? label = some node →
    ∃ k ≤ s.graph.lastBlank, node = .blank s!"b{k}"
  distinct : ∀ label label' node, s.labels.get? label = some node →
    s.labels.get? label' = some node → label = label'
  labelled : ∀ t ∈ done, Labelled s.labels t.subject ∧ Labelled s.labels t.predicate ∧
    Labelled s.labels t.object
  held : ∀ t, t ∈ s.graph ↔ ∃ u ∈ done, t = u.rename (nameOf s.labels)

theorem fresh_injective {m n : Nat} (same : Term.blank s!"b{m}" = Term.blank s!"b{n}") : m = n := by
  have labels : "b" ++ m.repr = "b" ++ n.repr := Term.blank.inj same
  exact Nat.repr_injective ((String.append_right_inj "b").mp labels)

variable {declared : SortedMap String String} {done : List Triple} {s t : State}

theorem Knows.rename_extends (known : Knows declared done s) (extended : Extends s.labels more)
    {u : Triple} (read : u ∈ done) : u.rename (nameOf more) = u.rename (nameOf s.labels) := by
  obtain ⟨subject, predicate, object⟩ := known.labelled u read
  simp only [Triple.rename, Turtle.rename_extends subject extended,
    Turtle.rename_extends predicate extended, Turtle.rename_extends object extended]

theorem Knows.at (known : Knows declared done s) (c : Cursor) : Knows declared done (s.at c) :=
  ⟨known.base, known.prefixes, known.kept, known.numbered, known.distinct, known.labelled, known.held⟩

/-- The state after a new label. -/
def State.label (s : State) (label : String) : State :=
  { s with graph := s.graph.blank.2, labels := s.labels.insert label s.graph.blank.1 }

theorem knows_label (known : Knows declared done s) {label : String}
    (fresh : s.labels.get? label = none) : Knows declared done (s.label label) := by
  have extended : Extends s.labels (s.label label).labels := extends_insert fresh _
  have found (other : String) : (s.label label).labels.get? other =
      if other = label then some s.graph.blank.1 else s.labels.get? other :=
    SortedMap.get?_insert ..
  have unused (other : String) : s.labels.get? other ≠ some s.graph.blank.1 := by
    intro used
    obtain ⟨k, old, same⟩ := known.numbered other _ used
    have number := fresh_injective same
    omega
  refine ⟨known.base, known.prefixes, known.kept, ?_, ?_, ?_, ?_⟩
  · intro other node stored
    rw [found] at stored
    split at stored
    · exact ⟨s.graph.lastBlank + 1, Nat.le_refl _, (Option.some.inj stored).symm⟩
    · obtain ⟨k, old, same⟩ := known.numbered other node stored
      exact ⟨k, Nat.le_succ_of_le old, same⟩
  · intro other other' node stored stored'
    rw [found] at stored stored'
    split at stored <;> split at stored'
    · simp_all
    · exact absurd (stored'.trans stored.symm) (unused other')
    · exact absurd (stored.trans stored'.symm) (unused other)
    · exact known.distinct other other' node stored stored'
  · intro t read
    obtain ⟨subject, predicate, object⟩ := known.labelled t read
    exact ⟨subject.extend extended, predicate.extend extended, object.extend extended⟩
  · intro t
    rw [State.label, Graph.mem_blank, known.held]
    constructor
    · rintro ⟨u, read, rfl⟩
      exact ⟨u, read, (known.rename_extends extended read).symm⟩
    · rintro ⟨u, read, rfl⟩
      exact ⟨u, read, known.rename_extends extended read⟩

/-- A prefix is declared. -/
theorem knows_prefix (known : Knows declared done s) (name iri : String) :
    Knows (declared.insert name iri) done
      { s with graph := s.graph.setPrefix name iri, prefixes := s.prefixes.insert name iri } := by
  refine ⟨known.base, ?_, ?_, known.numbered, known.distinct, known.labelled, known.held⟩
  · rw [known.prefixes]
  · rw [Graph.setPrefix, known.kept]

/-- The state after a new triple. -/
def State.insert (s : State) (u : Triple) : State := { s with graph := s.graph.insert u }

/-- A triple of terms that have been read is added. -/
theorem knows_insert (known : Knows declared done s) {u : Triple}
    (labelled : Labelled s.labels u.subject ∧ Labelled s.labels u.predicate ∧
      Labelled s.labels u.object) :
    Knows declared (done ++ [u]) (s.insert (u.rename (nameOf s.labels))) := by
  refine ⟨known.base, known.prefixes, ?_, ?_, known.distinct, ?_, ?_⟩
  · rw [State.insert, Graph.prefixes_insert]
    exact known.kept
  · rw [State.insert, Graph.lastBlank_insert]
    exact known.numbered
  · intro t member
    rcases List.mem_append.mp member with read | new
    · exact known.labelled t read
    · rw [List.mem_singleton.mp new]
      exact labelled
  · intro t
    rw [State.insert, Graph.mem_insert, known.held]
    simp only [List.mem_append, List.mem_singleton]
    constructor
    · rintro (rfl | ⟨v, read, rfl⟩)
      · exact ⟨u, .inr rfl, rfl⟩
      · exact ⟨v, .inl read, rfl⟩
    · rintro ⟨v, read | rfl, rfl⟩
      · exact .inr ⟨v, read, rfl⟩
      · exact .inl rfl

/-! ### Reading a label -/

namespace Reader

/-- `m` reads `u` and learns at most its label. -/
def ReadsTerm (declared : SortedMap String String) (done : List Triple) (m : Reader Term)
    (s : State) (ahead : List Char) (u : Term) (left : List Char) : Prop :=
  ∃ t, Reads m s ahead (u.rename (nameOf t.labels)) t left ∧ Knows declared done t ∧
    Extends s.labels t.labels ∧ Labelled t.labels u

theorem ReadsTerm.of_not_isBlank {m : Reader Term} {u : Term} {ahead left : List Char}
    (known : Knows declared done s) (other : u.isBlank = false) (read : Reads m s ahead u s left) :
    ReadsTerm declared done m s ahead u left := by
  refine ⟨s, ?_, known, .refl _, ?_⟩
  · rwa [Term.rename_of_not_isBlank other]
  · rintro label rfl
    cases other

/-- Once the label has been taken in, its node is looked up. -/
theorem reads_blankLabel_of_found {label : String} (plain : PlainLabel label.toList) {d : Char}
    (stop : Delimiter d) (rest : List Char) {node : Term} {t : State} (found : Reads (do
      match (← know).labels.get? label with
      | some node => return node
      | none =>
        let node ← freshBlank
        learned fun s => { s with labels := s.labels.insert label node }
        return node) s (d :: rest) node t (d :: rest)) :
    Reads blankLabel s ('_' :: ':' :: (label.toList ++ d :: rest)) node t (d :: rest) := by
  have noDots : trailingDots label.toList = 0 := trailingDots_eq_zero plain.noDot
  have named : (label.toList ++ d :: rest).takeWhile isNameChar = label.toList :=
    takeWhile_stop plain.named stop.not_name rest
  refine (reads_take 2).bind (reads_rest.bind ?_)
  simp only [List.drop_succ_cons, List.drop_zero, named, noDots, Nat.sub_zero, List.take_length,
    String.ofList_toList]
  exact (reads_take_append label.toList).bind (reads_giveBack_zero.bind found)

theorem reads_blankLabel {label : String} (plain : PlainLabel label.toList)
    (known : Knows declared done s) {d : Char} (stop : Delimiter d) (rest : List Char) :
    ReadsTerm declared done blankLabel s ('_' :: ':' :: (label.toList ++ d :: rest)) (.blank label)
      (d :: rest) := by
  cases stored : s.labels.get? label with
  | some node =>
    obtain ⟨k, _, rfl⟩ := known.numbered label node stored
    refine ⟨s, reads_blankLabel_of_found plain stop rest (reads_know fun c => ?_), known,
      .refl _, ?_⟩
    · have lookup : (s.at c).labels.get? label = _ := stored
      simp only [lookup, Term.rename, nameOf, stored]
      exact reads_pure _
    · rintro _ ⟨rfl⟩
      simp [stored]
  | none =>
    have lookup : (s.label label).labels.get? label = some s.graph.blank.1 :=
      (SortedMap.get?_insert ..).trans (if_pos rfl)
    refine ⟨s.label label, reads_blankLabel_of_found plain stop rest (reads_know fun c => ?_),
      knows_label known stored, extends_insert stored _, ?_⟩
    · have lookup' : (s.at c).labels.get? label = none := stored
      have renamed : (Term.blank label).rename (nameOf (s.label label).labels) =
          s.graph.blank.1 := by
        simp only [Term.rename, nameOf, lookup, Graph.blank]
      simp only [lookup', renamed]
      refine Reads.bind (t := { s with graph := s.graph.blank.2 }) (a := s.graph.blank.1) ?_
        ((reads_learned fun c => rfl).bind (reads_pure _))
      exact reads_know fun c => (reads_learned fun c => rfl).bind (reads_pure _)
    · rintro _ ⟨rfl⟩
      simp [lookup]

end Reader
end RepoAudit.Rdf.Turtle
