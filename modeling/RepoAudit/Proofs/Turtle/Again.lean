import RepoAudit.Proofs.Turtle.Refusals
import RepoAudit.Proofs.Turtle.Scope

/-!
# Reading what was read and written

Labels, language tags and places of terms in a graph that was read are always such that they can be
written. Its names need not be: escapes bring any character into an IRI, and `rdf:nil` is written in
a form that is not read in every place.
-/

namespace RepoAudit.Rdf.Turtle

open Text

/-- The IRIs of a term can be written between brackets. -/
def PlainNames : Term → Prop
  | .iri iri => PlainIri iri.toList
  | .blank _ => True
  | .literal l => PlainIri l.datatype.toList

instance (u : Term) : Decidable (PlainNames u) := by
  cases u <;> unfold PlainNames <;> infer_instance

/-- What the writer takes for granted of the names in a graph. -/
structure WellNamed (g : Graph) : Prop where
  prefixes : PlainPrefixes g.prefixes
  terms : ∀ t ∈ g, PlainNames t.subject ∧ PlainNames t.predicate ∧ PlainNames t.object

/-- Neither a predicate nor a datatype is the empty collection. -/
def NilFree (g : Graph) : Prop :=
  ∀ t ∈ g, t.predicate ≠ .iri (rdf "nil") ∧ t.object.datatype ≠ rdf "nil"

theorem plainLabel_numbered (n : Nat) : PlainLabel s!"b{n}".toList := by
  have digits : s!"b{n}".toList = 'b' :: Nat.toDigits 10 n := by simp [toString, Nat.repr]
  have plain : ∀ c ∈ s!"b{n}".toList, c.isAlphanum = true := by
    rw [digits]
    intro c member
    rcases List.mem_cons.mp member with rfl | member
    · decide
    · have digit := Nat.isDigit_of_mem_toDigits (by decide) (by decide) member
      simp [Char.isAlphanum, digit]
  refine ⟨by simp, fun c member => ?_, fun dot => ?_⟩
  · exact isNameChar_of_plain (by simp [plain c member])
  · have letter := plain '.' (List.mem_of_getLast? dot)
    revert letter
    decide

theorem ReadTerm.plain {n : Nat} {u : Term} (read : ReadTerm n u) (named : PlainNames u) :
    PlainTerm u ∨ Lost u := by
  cases u with
  | iri => exact .inl named
  | blank label =>
    obtain ⟨i, -, -, rfl⟩ := read
    exact .inl (plainLabel_numbered i)
  | literal l =>
    by_cases nil : l.datatype = rdf "nil"
    · -- A tag would have made it a language string.
      have untagged : l.lang = none := by
        refine Option.eq_none_iff_forall_ne_some.mpr fun tag tagged => ?_
        have datatype := (read tag tagged).1
        rw [nil] at datatype
        exact absurd datatype (by decide)
      refine .inr ⟨l.lexical, ?_⟩
      rw [Term.typed, ← nil, ← untagged]
    · exact .inl ⟨named, nil, read⟩

theorem Lost.datatype {u : Term} (lost : Lost u) : u.datatype = rdf "nil" := by
  obtain ⟨lexical, rfl⟩ := lost
  rfl

theorem PlainTerm.datatype {u : Term} (plain : PlainTerm u) : u.datatype ≠ rdf "nil" := by
  have none : "" ≠ rdf "nil" := by decide
  cases u with
  | literal l => exact plain.notNil
  | _ => exact none

variable {g : Graph} {text source : String}

theorem readTriple_of_read (accepted : read text source = .ok g) {t : Triple} (member : t ∈ g) :
    ReadTriple g.lastBlank t := by
  have continues := (readInto_continues ∅ text source).2
  rw [readInto_of_read accepted] at continues
  exact continues.read t member

theorem plainSubject_of_read {n : Nat} {t : Triple} (read : ReadTriple n t)
    (named : PlainNames t.subject) : PlainTerm t.subject := by
  refine (read.subject.plain named).resolve_right ?_
  rintro ⟨lexical, same⟩
  have notLiteral := read.notLiteral
  rw [same] at notLiteral
  cases notLiteral

theorem namedSubject_of_read (accepted : read text source = .ok g) (named : WellNamed g)
    {entry : Term × SortedMap Term (SortedSet Term)} (member : entry ∈ g.bySubject.entries) :
    NamedSubject entry := by
  obtain ⟨⟨property, first⟩, held⟩ := mem_of_entry member
  obtain ⟨⟨o, o_mem⟩, objects⟩ := held property first
  have read := readTriple_of_read accepted (objects o o_mem)
  refine ⟨plainSubject_of_read read (named.terms _ (objects o o_mem)).1, read.notLiteral,
    List.ne_nil_of_mem first, fun p stored => ?_⟩
  obtain ⟨⟨o, o_mem⟩, objects⟩ := held p stored
  obtain ⟨iri, same⟩ := (readTriple_of_read accepted (objects o o_mem)).predicate
  have plain := (named.terms _ (objects o o_mem)).2.1
  rw [same] at plain
  refine ⟨⟨iri, same, plain⟩, List.ne_nil_of_mem o_mem, fun o o_mem => ?_⟩
  exact (readTriple_of_read accepted (objects o o_mem)).object.plain
    (named.terms _ (objects o o_mem)).2.2

theorem writable_of_read (accepted : read text source = .ok g) (named : WellNamed g)
    (free : NilFree g) : Writable g := by
  refine ⟨named.prefixes, fun t member => ?_, fun t member => ?_, fun t member => ?_⟩
  · have read := readTriple_of_read accepted member
    exact ⟨plainSubject_of_read read (named.terms t member).1, read.notLiteral⟩
  · obtain ⟨iri, same⟩ := (readTriple_of_read accepted member).predicate
    have plain := (named.terms t member).2.1
    have notNil := (free t member).1
    rw [same] at plain notNil
    exact ⟨iri, same, plain, fun nil => notNil (congrArg Term.iri nil)⟩
  · have read := readTriple_of_read accepted member
    refine (read.object.plain (named.terms t member).2.2).resolve_right ?_
    exact fun lost => (free t member).2 lost.datatype

theorem nilFree_of_plainSubject (plain : ∀ e ∈ g.bySubject.entries, PlainSubject e) :
    NilFree g := by
  rintro ⟨s, p, o⟩ member
  obtain ⟨m, os, entry, stored, o_mem⟩ := Graph.mem_iff_entries.mp member
  have property := (plain _ entry).properties _ (mem_typesFirst.mpr stored)
  obtain ⟨iri, rfl, -, notNil⟩ := property.predicate
  exact ⟨fun nil => notNil (Term.iri.inj nil), (property.objects o o_mem).datatype⟩

/-- What is written of a graph that was read, with plain names, is read again exactly if neither a
predicate nor a datatype is `rdf:nil`, and then with the same prefixes and, up to the labels of
blank nodes, the same triples. -/
theorem read_again (accepted : read text source = .ok g) (named : WellNamed g) (source' : String) :
    (NilFree g → ∃ h, read (write g) source' = .ok h ∧ h.prefixes = g.prefixes ∧
      ∃ f : String → String, Set.InjOn f g.labels ∧ ∀ t, t ∈ h ↔ ∃ u ∈ g, t = u.rename f) ∧
    (¬ NilFree g → ∃ e, read (write g) source' = .error e) := by
  constructor
  · intro free
    obtain ⟨s, read, known⟩ := knows_written (writable_of_read accepted named free) source'
    refine ⟨s.graph, read, known.kept, nameOf s.labels, known.injOn_nameOf, fun t => ?_⟩
    rw [known.held]
    simp only [mem_triplesAbout]
  · intro lost
    refine refused_written named.prefixes (fun e => namedSubject_of_read accepted named) ?_ source'
    by_contra none
    push Not at none
    exact lost (nilFree_of_plainSubject none)

/-! ### Pages -/

def pages : String := "@prefix ex: <urn:ex:> .\nex:a ex:pages _:first , () ; ex:size 3 .\n"

theorem read_pages_again : ∃ g, read pages "pages" = .ok g ∧ WellNamed g ∧ NilFree g ∧
    ∃ h, read (write g) "pages" = .ok h ∧ h.prefixes = g.prefixes ∧
      ∃ f : String → String, Set.InjOn f g.labels ∧ ∀ t, t ∈ h ↔ ∃ u ∈ g, t = u.rename f := by
  have accepted : (readInto ∅ pages "pages").1 = none := by decide +kernel
  have read := read_of_readInto accepted
  have prefixes : (readInto ∅ pages "pages").2.prefixes.entries = [("ex", "urn:ex:")] := by
    decide +kernel
  have names : ∀ t ∈ (readInto ∅ pages "pages").2.bySubject.entries.flatMap triplesAbout,
      (PlainNames t.subject ∧ PlainNames t.predicate ∧ PlainNames t.object) ∧
        t.predicate ≠ .iri (rdf "nil") ∧ t.object.datatype ≠ rdf "nil" := by
    decide +kernel
  generalize (readInto ∅ pages "pages").2 = g at read prefixes names
  have named : WellNamed g := by
    refine ⟨fun name iri declared => ?_, fun t member => (names t (mem_triplesAbout.mpr member)).1⟩
    have entry := (SortedMap.mem_entries _).mpr declared
    rw [prefixes] at entry
    obtain ⟨rfl, rfl⟩ := Prod.mk.inj (List.mem_singleton.mp entry)
    refine ⟨⟨List.all_eq_true.mp (by decide +kernel), by decide, ?_⟩, by decide⟩
    rintro c ⟨rfl⟩
    decide
  have free : NilFree g := fun t member => (names t (mem_triplesAbout.mpr member)).2
  exact ⟨g, read, named, free, (read_again read named _).1 free⟩

/-- The node of the empty collection as a predicate and as a datatype, IRIs with a bracket, and a
prefix that begins with a digit. -/
def lostTexts : List String :=
  ["<urn:a> <http://www.w3.org/1999/02/22-rdf-syntax-ns#nil> <urn:b> .",
   "<urn:a> <urn:p> 'x'^^<http://www.w3.org/1999/02/22-rdf-syntax-ns#nil> .",
   "<urn:a> <urn:p> <urn:a\\u003Eb> .",
   "@prefix q: <urn:> . q:a q:p q:a\\>b .",
   "@prefix 1a: <urn:> . <urn:a> <urn:p> <urn:b> ."]

theorem read_lost_again : lostTexts.Forall fun text => ∃ g, read text "lost" = .ok g ∧
    ∃ e, read (write g) "lost" = .error e := by
  have lost : ∀ text ∈ lostTexts, (readInto ∅ text "lost").1 = none ∧
      (readInto ∅ (write (readInto ∅ text "lost").2) "lost").1 ≠ none := by
    decide +kernel
  refine List.forall_iff_forall_mem.mpr fun text member => ?_
  obtain ⟨accepted, refused⟩ := lost text member
  exact ⟨_, read_of_readInto accepted, refused_of_readInto refused⟩

end RepoAudit.Rdf.Turtle
