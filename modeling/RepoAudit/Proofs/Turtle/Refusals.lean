import RepoAudit.Proofs.Turtle.Document

/-!
# Written graphs that are refused

The node `rdf:nil` is written `()` in every place, but neither a predicate nor a datatype is read
so. A text is read up to the first such place, and no further.
-/

namespace RepoAudit.Rdf.Turtle

open Text

/-- A literal whose datatype is written as an empty collection. -/
def Lost (u : Term) : Prop := ∃ lexical, u = .typed lexical (rdf "nil")

/-- A property whose names are plain. -/
structure NamedProperty (property : Term × SortedSet Term) : Prop where
  predicate : ∃ iri, property.1 = .iri iri ∧ PlainIri iri.toList
  filled : property.2.toList ≠ []
  objects : ∀ o ∈ property.2.toList, PlainTerm o ∨ Lost o

/-- A subject whose names, and those of its properties, are plain. -/
structure NamedSubject (entry : Term × SortedMap Term (SortedSet Term)) : Prop where
  plain : PlainTerm entry.1
  notLiteral : entry.1.isLiteral = false
  filled : typesFirst entry.2 ≠ []
  properties : ∀ p ∈ typesFirst entry.2, NamedProperty p

theorem verbText_nil (prefixes : SortedMap String String) :
    verbText prefixes (.iri (rdf "nil")) = "()" := by
  have notType : (Term.iri (rdf "nil") == Term.iri (rdf "type")) = false := by decide
  simp only [verbText, notType, Bool.false_eq_true, if_false, termText, iriText_nil]

namespace Reader

variable {declared : SortedMap String String} {done : List Triple} {s : State} {fuel : Nat}

/-! ### Names -/

theorem refuses_prefixedName (rest : List Char) : Refuses prefixedName s ('(' :: rest) := by
  have none : ('(' :: rest).takeWhile isNameChar = [] := List.takeWhile_cons_of_neg (by decide)
  refine reads_rest.refuses ?_
  rw [none]
  refine (reads_take 0).refuses ?_
  exact refuses_fail _

theorem refuses_verb {blanks : List Char} (blank : Blanks blanks) (rest : List Char) :
    Refuses verb s (blanks ++ '(' :: rest) := by
  have visible : Visible '(' := visible_ascii (by decide) (by decide)
  rw [verb]
  refine (reads_skipSpace _ blank (spaceLength_visible visible rest)).refuses ?_
  refine reads_rest.refuses ?_
  exact (refuses_prefixedName rest).bind _

theorem refuses_object (lexical : String) (rest : List Char) :
    Refuses (object (fuel + 1)) s
      (' ' :: ((termText declared (.typed lexical (rdf "nil"))).toList ++ rest)) := by
  have other (name : String) (unlike : xsd name ≠ rdf "nil") : (rdf "nil" == xsd name) = false :=
    beq_eq_false_iff_ne.mpr unlike.symm
  have text : (termText declared (.typed lexical (rdf "nil"))).toList ++ rest =
      (Term.quoted lexical).toList ++ '^' :: '^' :: '(' :: ')' :: rest := by
    simp only [termText, Term.typed, literalText, other "string" (by decide),
      other "integer" (by decide), other "decimal" (by decide), other "boolean" (by decide),
      iriText_nil]
    simp
  rw [text]
  refine (leads_literal lexical _).refuses ((reads_quoted lexical (by decide)).refuses ?_)
  refine reads_rest.refuses ((reads_take 2).refuses (reads_peek.refuses ?_))
  exact (refuses_prefixedName (')' :: rest)).bind _

/-! ### Statements -/

section Statements

variable {subject : Term} (prefixes : PlainPrefixes declared)

include prefixes

/-- The objects of a predicate are read up to one that is lost. -/
theorem refuses_objectList (iri : String) (more : List Char) :
    ∀ {objects : List Term} {fuel : Nat} {done : List Triple} {s : State},
      (∀ o ∈ objects, PlainTerm o ∨ Lost o) → (∃ o ∈ objects, Lost o) → Knows declared done s →
      Labelled s.labels subject →
      (", ".intercalate (objects.map (termText declared))).toList.length + 4 ≤ fuel →
      Refuses (objectList fuel (subject.rename (nameOf s.labels)) (.iri iri)) s
        (' ' :: ((", ".intercalate (objects.map (termText declared))).toList ++ more))
  | [], _, _, _, _, ⟨_, member, _⟩, _, _, _ => by cases member
  | o :: rest, fuel, done, s, named, bad, known, labelled, enough => by
    obtain ⟨fuel, rfl⟩ : ∃ n, fuel = n + 4 := ⟨fuel - 4, by omega⟩
    by_cases here : Lost o
    · obtain ⟨lexical, rfl⟩ := here
      obtain ⟨after, begins⟩ := objectsText_begins declared (.typed lexical (rdf "nil")) rest
      rw [begins, List.append_assoc, objectList]
      exact (refuses_object lexical _).bind _
    · have plain := (named o (.head _)).resolve_right here
      obtain ⟨u, later, lost⟩ := ((List.exists_mem_cons_iff _ _ _).mp bad).resolve_left here
      obtain ⟨o', rest, rfl⟩ := List.exists_cons_of_ne_nil (List.ne_nil_of_mem later)
      rw [objectsText_cons] at enough ⊢
      simp only [List.append_assoc, List.length_append, List.length_cons, List.cons_append]
        at enough ⊢
      have enough' : (", ".intercalate ((o' :: rest).map (termText declared))).toList.length + 4 ≤
          fuel + 3 := by omega
      obtain ⟨t, known, extended, leads⟩ := leads_comma labelled iri
        (reads_object prefixes known (.inr (.inl rfl)) plain)
      exact leads.refuses (refuses_objectList iri more (fun u member => named u (.tail _ member))
        ⟨u, later, lost⟩ known (labelled.extend extended) enough')

theorem refuses_property {property : Term × SortedSet Term} (named : NamedProperty property)
    (bad : ¬ PlainProperty property) (known : Knows declared done s)
    (labelled : Labelled s.labels subject)
    (enough : (propertyText declared property).toList.length + 4 ≤ fuel) {blanks : List Char}
    (blank : Blanks blanks) (more : List Char) :
    Refuses (verb >>= objectList fuel (subject.rename (nameOf s.labels))) s
      (blanks ++ ((propertyText declared property).toList ++ more)) := by
  obtain ⟨predicate, objects⟩ := property
  obtain ⟨⟨iri, same, plain⟩, filled, terms⟩ := named
  dsimp only at same filled terms
  subst same
  simp only [propertyText, String.toList_append, List.length_append, List.append_assoc]
    at enough ⊢
  by_cases nil : iri = rdf "nil"
  · rw [nil, verbText_nil]
    exact (refuses_verb blank _).bind _
  · have enough' : (", ".intercalate (objects.toList.map (termText declared))).toList.length + 4 ≤
        fuel := by omega
    have lost : ∃ o ∈ objects.toList, Lost o := by
      by_contra none
      push Not at none
      exact bad ⟨⟨iri, rfl, plain, nil⟩, filled, fun o member =>
        (terms o member).resolve_right (none o member)⟩
    refine (reads_verb prefixes known plain nil blank _).refuses ?_
    exact refuses_objectList prefixes iri more terms lost known labelled enough'

/-- The properties of a subject are read up to one that is lost. -/
theorem refuses_properties (more : List Char) :
    ∀ (blanks : List Char) {properties : List (Term × SortedSet Term)} {fuel : Nat}
      {done : List Triple} {s : State}, (∀ p ∈ properties, NamedProperty p) →
      (∃ p ∈ properties, ¬ PlainProperty p) → Knows declared done s → Labelled s.labels subject →
      Blanks blanks → (propertiesText declared properties).toList.length + 5 ≤ fuel →
      Refuses (predicateObjectList fuel (subject.rename (nameOf s.labels))) s
        (blanks ++ ((propertiesText declared properties).toList ++ more))
  | _, [], _, _, _, _, ⟨_, member, _⟩, _, _, _, _ => by cases member
  | blanks, property :: rest, fuel, done, s, named, bad, known, labelled, blank, enough => by
    obtain ⟨fuel, rfl⟩ : ∃ n, fuel = n + 1 := ⟨fuel - 1, by omega⟩
    by_cases plain : PlainProperty property
    · obtain ⟨p, later, lost⟩ :=
        ((List.exists_mem_cons_iff _ _ _).mp bad).resolve_left (not_not.mpr plain)
      obtain ⟨next, rest, rfl⟩ := List.exists_cons_of_ne_nil (List.ne_nil_of_mem later)
      rw [propertiesText_cons] at enough ⊢
      simp only [List.append_assoc, List.length_append, List.length_cons, List.cons_append]
        at enough ⊢
      have enough' : (propertyText declared property).toList.length + 4 ≤ fuel := by omega
      have enough'' : (propertiesText declared (next :: rest)).toList.length + 5 ≤ fuel := by omega
      obtain ⟨iri, same, plainIri⟩ := (named next (.tail _ (.head _))).predicate
      obtain ⟨t, known, extended, leads⟩ := leads_semicolon ['\n', ' ', ' ', ' ', ' ']
        (blanks_of_spaces (by decide)) (verbHead_propertiesText prefixes same plainIri rest more)
        (reads_property prefixes plain known labelled enough'
          (visible_ascii (by decide) (by decide)) (by decide) blank)
      have refused := refuses_properties more [] (fun p member => named p (.tail _ member))
        ⟨p, later, lost⟩ known (labelled.extend extended) (blanks_of_spaces rfl) enough''
      rw [rename_extends labelled extended] at refused
      exact leads.refuses refused
    · obtain ⟨after, begins⟩ := propertiesText_begins declared property rest
      rw [begins, List.length_append] at enough
      have enough' : (propertyText declared property).toList.length + 4 ≤ fuel := by omega
      rw [begins, List.append_assoc, predicateObjectList, ← bind_assoc]
      exact (refuses_property prefixes (named property (.head _)) plain known labelled enough'
        blank _).bind _

/-- The statements about a subject are read up to the property that is lost. -/
theorem refuses_about {entry : Term × SortedMap Term (SortedSet Term)} (named : NamedSubject entry)
    (bad : ¬ PlainSubject entry) (known : Knows declared done s)
    (enough : (subjectText declared entry.1 entry.2).toList.length ≤ fuel) (rest : List Char) :
    ∃ c more, (subjectText declared entry.1 entry.2).toList ++ rest = c :: more ∧ Visible c ∧
      Refuses (statement fuel) s (c :: more) := by
  obtain ⟨subject, properties⟩ := entry
  obtain ⟨plain, notLiteral, filled, named⟩ := named
  dsimp only at plain notLiteral filled named enough ⊢
  have lost : ∃ p ∈ typesFirst properties, ¬ PlainProperty p := by
    by_contra none
    push Not at none
    exact bad ⟨plain, notLiteral, filled, none⟩
  rw [subjectText_toList] at enough ⊢
  simp only [List.length_append, List.length_cons, List.append_assoc, List.cons_append,
    List.nil_append] at enough ⊢
  have enough' : (propertiesText declared (typesFirst properties)).toList.length + 5 ≤ fuel := by
    omega
  obtain ⟨fuel, rfl⟩ : ∃ n, fuel = n + 2 := ⟨fuel - 2, by omega⟩
  obtain ⟨c, more, begins, visible, t, known, extended, labelled, leads⟩ :=
    leads_about prefixes known plain notLiteral fuel
      ((propertiesText declared (typesFirst properties)).toList ++
        ' ' :: '.' :: '\n' :: '\n' :: rest)
  have refused := refuses_properties prefixes (' ' :: '.' :: '\n' :: '\n' :: rest) [' '] named lost
    known labelled (blanks_of_spaces rfl) enough'
  exact ⟨c, more, begins, visible, leads.refuses (refused.bind _)⟩

end Statements

/-! ### Documents -/

theorem refuses_subjects (prefixes : PlainPrefixes declared) :
    ∀ (blanks : List Char) {entries : List (Term × SortedMap Term (SortedSet Term))} {n : Nat}
      {done : List Triple} {s : State}, (∀ e ∈ entries, NamedSubject e) →
      (∃ e ∈ entries, ¬ PlainSubject e) → Knows declared done s → Blanks blanks →
      (entries.flatMap fun e => (subjectText declared e.1 e.2).toList).length ≤ fuel →
      entries.length < n →
      Refuses (statements fuel n) s
        (blanks ++ entries.flatMap fun e => (subjectText declared e.1 e.2).toList)
  | _, [], _, _, _, _, ⟨_, member, _⟩, _, _, _, _ => by cases member
  | blanks, entry :: rest, n, done, s, named, bad, known, blank, long, enough => by
    obtain ⟨n, rfl⟩ : ∃ k, n = k + 1 := ⟨n - 1, by simp at enough; omega⟩
    simp only [List.flatMap_cons, List.length_append, List.length_cons] at long enough ⊢
    have long' : (subjectText declared entry.1 entry.2).toList.length ≤ fuel := by omega
    by_cases plain : PlainSubject entry
    · have later := ((List.exists_mem_cons_iff _ _ _).mp bad).resolve_left (not_not.mpr plain)
      obtain ⟨c, more, begins, visible, t, read, known, -⟩ := reads_about prefixes plain known long'
        (rest.flatMap fun e => (subjectText declared e.1 e.2).toList)
      have refused := refuses_subjects prefixes ['\n', '\n'] (n := n)
        (fun e member => named e (.tail _ member)) later known (blanks_of_spaces rfl)
        (by omega) (by omega)
      rw [begins]
      exact (leads_statements visible blank more n).refuses (read.refuses refused)
    · obtain ⟨c, more, begins, visible, refused⟩ := refuses_about prefixes (named entry (.head _))
        plain known long' (rest.flatMap fun e => (subjectText declared e.1 e.2).toList)
      rw [begins]
      exact (leads_statements visible blank more n).refuses (refused.bind _)

end Reader

/-! ### Graphs -/

theorem refused_written {g : Graph} (prefixes : PlainPrefixes g.prefixes)
    (named : ∀ e ∈ g.bySubject.entries, NamedSubject e)
    (bad : ∃ e ∈ g.bySubject.entries, ¬ PlainSubject e) (source : String) :
    ∃ e, read (write g) source = .error e := by
  obtain ⟨s, fuel, n, blanks, known, blank, enough, long, leads⟩ := leads_written prefixes
  have refused := Reader.refuses_subjects prefixes blanks named bad known blank long enough
  obtain ⟨cause, t, ran⟩ := (leads.refuses refused) ⟨[], (write g).toList, 1, 1⟩ rfl
  change Reader.document.run { cursor := ⟨[], (write g).toList, 1, 1⟩, graph := ∅ } = _ at ran
  refine ⟨⟨source, t.cursor.line, t.cursor.column, cause⟩, ?_⟩
  rw [Turtle.read, readInto, ran]

end RepoAudit.Rdf.Turtle
