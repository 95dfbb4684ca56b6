import RepoAudit.Proofs.Turtle.Nodes

/-!
# Statements read back

The lists of objects and properties of a subject are read item by item. A separator behind an item
leads to the next one, and the fuel lasts because each item takes a part of the text.
-/

namespace RepoAudit.Rdf.Turtle

open Text

/-! ### What is written about a subject -/

/-- A property that can be written. -/
structure PlainProperty (property : Term × SortedSet Term) : Prop where
  predicate : ∃ iri, property.1 = .iri iri ∧ PlainIri iri.toList ∧ iri ≠ rdf "nil"
  filled : property.2.toList ≠ []
  objects : ∀ o ∈ property.2.toList, PlainTerm o

/-- The triples of a subject that a property stands for. -/
def triplesOf (subject : Term) (property : Term × SortedSet Term) : List Triple :=
  property.2.toList.map (⟨subject, property.1, ·⟩)

/-- A subject that can be written, with its properties. -/
structure PlainSubject (entry : Term × SortedMap Term (SortedSet Term)) : Prop where
  plain : PlainTerm entry.1
  notLiteral : entry.1.isLiteral = false
  filled : typesFirst entry.2 ≠ []
  properties : ∀ p ∈ typesFirst entry.2, PlainProperty p

/-- The triples of a subject in the order in which they are written. -/
def triplesAbout (entry : Term × SortedMap Term (SortedSet Term)) : List Triple :=
  (typesFirst entry.2).flatMap (triplesOf entry.1)

theorem mem_typesFirst {m : SortedMap Term (SortedSet Term)} {property : Term × SortedSet Term} :
    property ∈ typesFirst m ↔ property ∈ m.entries := by
  obtain ⟨p, os⟩ := property
  simp only [typesFirst, List.mem_append, List.mem_map, Option.mem_toList, Prod.mk.injEq,
    exists_eq_right_right, SortedMap.mem_entries, SortedMap.erase, SortedMap.get?_alter]
  by_cases type : p = .iri (rdf "type")
  · subst type
    simp
  · simp [type, Ne.symm type]

theorem objectsText_cons (prefixes : SortedMap String String) (o o' : Term) (rest : List Term) :
    (", ".intercalate ((o :: o' :: rest).map (termText prefixes))).toList =
      (termText prefixes o).toList ++
        ',' :: ' ' :: (", ".intercalate ((o' :: rest).map (termText prefixes))).toList := by
  have text : ", ".intercalate ((o :: o' :: rest).map (termText prefixes)) =
      termText prefixes o ++ ", " ++ ", ".intercalate ((o' :: rest).map (termText prefixes)) :=
    String.intercalate_cons_cons
  rw [text, String.toList_append, String.toList_append, List.append_assoc]
  rfl

theorem propertiesText_cons (prefixes : SortedMap String String)
    (property next : Term × SortedSet Term) (rest : List (Term × SortedSet Term)) :
    (propertiesText prefixes (property :: next :: rest)).toList =
      (propertyText prefixes property).toList ++
        ' ' :: ';' ::
          (['\n', ' ', ' ', ' ', ' '] ++ (propertiesText prefixes (next :: rest)).toList) := by
  have text : propertiesText prefixes (property :: next :: rest) =
      propertyText prefixes property ++ " ;\n    " ++ propertiesText prefixes (next :: rest) :=
    String.intercalate_cons_cons
  rw [text, String.toList_append, String.toList_append, List.append_assoc]
  rfl

/-- The first object begins the text of a list of objects. -/
theorem objectsText_begins (prefixes : SortedMap String String) (o : Term) (others : List Term) :
    ∃ after, (", ".intercalate ((o :: others).map (termText prefixes))).toList =
      (termText prefixes o).toList ++ after := by
  cases others with
  | nil => exact ⟨[], by simp⟩
  | cons o' rest => exact ⟨_, objectsText_cons prefixes o o' rest⟩

theorem propertiesText_begins (prefixes : SortedMap String String)
    (property : Term × SortedSet Term) (others : List (Term × SortedSet Term)) :
    ∃ after, (propertiesText prefixes (property :: others)).toList =
      (propertyText prefixes property).toList ++ after := by
  cases others with
  | nil => exact ⟨[], by simp [propertiesText]⟩
  | cons next rest => exact ⟨_, propertiesText_cons prefixes property next rest⟩

namespace Reader

variable {declared : SortedMap String String} {done : List Triple} {s : State} {left : List Char}

/-- `m` reads the triples `new`. -/
def ReadsTriples (declared : SortedMap String String) (done : List Triple) (m : Reader Unit)
    (s : State) (ahead : List Char) (new : List Triple) (left : List Char) : Prop :=
  ∃ t, Reads m s ahead () t left ∧ Knows declared (done ++ new) t ∧ Extends s.labels t.labels

/-! ### Objects of a predicate -/

section Objects

variable {fuel : Nat} {ahead more : List Char}

section

variable {subject predicate o : Term} {t : State}

/-- An object is added when it has been read. -/
theorem reads_insert :
    Reads (learned fun s => { s with graph := s.graph.insert ⟨subject, predicate, o⟩ }) t ahead ()
      (t.insert ⟨subject, predicate, o⟩) ahead :=
  reads_learned fun _ => rfl

/-- A sign other than a comma ends the objects of a predicate. -/
theorem reads_lastObject {gap : List Char} {e : Char}
    (read : Reads (object fuel) s ahead o t (gap ++ e :: more)) (blank : Blanks gap)
    (visible : Visible e) (last : e ≠ ',') :
    Reads (objectList (fuel + 1) subject predicate) s ahead ()
      (t.insert ⟨subject, predicate, o⟩) (e :: more) := by
  rw [objectList]
  refine read.bind (reads_insert.bind ?_)
  refine (reads_skipSpace gap blank (spaceLength_visible visible more)).bind (reads_peek.bind ?_)
  rw [List.head?_cons, if_neg (by simpa using last)]
  exact reads_pure _

/-- Behind a comma the objects of a predicate go on. -/
theorem leads_nextObject (read : Reads (object fuel) s ahead o t (',' :: more)) :
    Leads (objectList (fuel + 1) subject predicate) s ahead (objectList fuel subject predicate)
      (t.insert ⟨subject, predicate, o⟩) more := by
  have visible : Visible ',' := visible_ascii (by decide) (by decide)
  rw [objectList]
  refine read.leads (reads_insert.leads ((reads_noSpace visible).leads (reads_peek.leads ?_)))
  exact (reads_take 1).leads (leads_refl _)

end

variable {subject u : Term} {iri : String}

/-- The triple of an object that has been read is known. -/
theorem knows_object (labelled : Labelled s.labels subject) (known : Knows declared done s)
    (labelled' : Labelled s.labels u) (iri : String) :
    Knows declared (done ++ [⟨subject, .iri iri, u⟩])
      (s.insert ⟨subject.rename (nameOf s.labels), .iri iri, u.rename (nameOf s.labels)⟩) := by
  have unlabelled : Labelled s.labels (.iri iri) := fun label same => by cases same
  exact knows_insert known ⟨labelled, unlabelled, labelled'⟩

theorem objectList_last (labelled : Labelled s.labels subject) {c : Char} (visible : Visible c)
    (last : c ≠ ',') (read : ReadsTerm declared done (object fuel) s ahead u (' ' :: c :: more)) :
    ReadsTriples declared done (objectList (fuel + 1) (subject.rename (nameOf s.labels)) (.iri iri)) s
      ahead [⟨subject, .iri iri, u⟩] (c :: more) := by
  obtain ⟨t, read, known, extended, labelled'⟩ := read
  have blank : Blanks [' '] := blanks_of_spaces rfl
  rw [← rename_extends labelled extended]
  exact ⟨_, reads_lastObject read blank visible last,
    knows_object (labelled.extend extended) known labelled' iri, extended⟩

/-- Behind an object and a comma the list goes on. -/
theorem leads_comma (labelled : Labelled s.labels subject) (iri : String)
    (read : ReadsTerm declared done (object fuel) s ahead u (',' :: more)) :
    ∃ t, Knows declared (done ++ [⟨subject, .iri iri, u⟩]) t ∧ Extends s.labels t.labels ∧
      Leads (objectList (fuel + 1) (subject.rename (nameOf s.labels)) (.iri iri)) s ahead
        (objectList fuel (subject.rename (nameOf t.labels)) (.iri iri)) t more := by
  obtain ⟨t, read, known, extended, labelled'⟩ := read
  refine ⟨_, knows_object (labelled.extend extended) known labelled' iri, extended, ?_⟩
  rw [← rename_extends labelled extended]
  exact leads_nextObject read

/-- The objects of a predicate are read up to the sign that ends their list. -/
theorem reads_objectList (prefixes : PlainPrefixes declared) {c : Char} (visible : Visible c)
    (last : c ≠ ',') (iri : String) (more : List Char) :
    ∀ {objects : List Term} {fuel : Nat} {done : List Triple} {s : State},
      objects ≠ [] → (∀ o ∈ objects, PlainTerm o) → Knows declared done s →
      Labelled s.labels subject →
      (", ".intercalate (objects.map (termText declared))).toList.length + 4 ≤ fuel →
      ReadsTriples declared done (objectList fuel (subject.rename (nameOf s.labels)) (.iri iri)) s
        (' ' :: ((", ".intercalate (objects.map (termText declared))).toList ++ ' ' :: c :: more))
        (objects.map (⟨subject, .iri iri, ·⟩)) (c :: more)
  | [], _, _, _, empty, _, _, _, _ => absurd rfl empty
  | [o], fuel, _, _, _, plain, known, labelled, enough => by
    obtain ⟨fuel, rfl⟩ : ∃ n, fuel = n + 4 := ⟨fuel - 4, by omega⟩
    rw [List.map_singleton, String.intercalate_singleton]
    exact objectList_last labelled visible last
      (reads_object prefixes known (.inl rfl) (plain o (.head _)))
  | o :: o' :: rest, fuel, done, s, _, plain, known, labelled, enough => by
    obtain ⟨fuel, rfl⟩ : ∃ n, fuel = n + 4 := ⟨fuel - 4, by omega⟩
    rw [objectsText_cons] at enough ⊢
    simp only [List.append_assoc, List.length_append, List.length_cons, List.cons_append]
      at enough ⊢
    have enough' : (", ".intercalate ((o' :: rest).map (termText declared))).toList.length + 4 ≤
        fuel + 3 := by omega
    obtain ⟨t, known, extended, leads⟩ := leads_comma labelled iri
      (reads_object prefixes known (.inr (.inl rfl)) (plain o (.head _)))
    obtain ⟨t', read, known', extended'⟩ := reads_objectList prefixes visible last iri more
      (by simp) (fun u member => plain u (.tail _ member)) known (labelled.extend extended) enough'
    rw [List.append_assoc] at known'
    exact ⟨t', leads.reads read, known', extended.trans extended'⟩

end Objects

/-! ### Properties of a subject -/

section Properties

variable {fuel : Nat} {subject node : Term} {c : Char} {ahead more : List Char}
  {new : List Triple}

/-- Before a property, semicolons are skipped. -/
theorem reads_skipSemicolons (head : VerbHead c) {blanks : List Char}
    (blank : Blanks blanks) (n : Nat) :
    Reads (skipSemicolons (n + 2)) s (';' :: (blanks ++ c :: more)) () s (c :: more) := by
  have ended : Reads (skipSemicolons (n + 1)) s (c :: more) () s (c :: more) := by
    rw [skipSemicolons]
    refine reads_peek.bind ?_
    rw [List.head?_cons, if_neg (by simpa using head.notSemicolon)]
    exact reads_pure _
  rw [skipSemicolons]
  refine reads_peek.bind ((reads_take 1).bind ?_)
  exact (reads_skipSpace _ blank (spaceLength_visible head.visible more)).bind ended

/-- A sign other than a semicolon ends the properties of a node. -/
theorem reads_lastProperty {t : State} (visible : Visible c) (last : c ≠ ';')
    (read : Reads (verb >>= objectList fuel node) s ahead () t (c :: more)) :
    Reads (predicateObjectList (fuel + 1) node) s ahead () t (c :: more) := by
  rw [predicateObjectList, ← bind_assoc]
  refine read.bind ((reads_noSpace visible).bind (reads_peek.bind ?_))
  rw [List.head?_cons, if_neg (by simpa using last)]
  exact reads_pure _

/-- Behind a semicolon the properties of a node go on. -/
theorem leads_nextProperty {t : State} {blanks : List Char} (blank : Blanks blanks)
    (head : VerbHead c)
    (read : Reads (verb >>= objectList fuel node) s ahead () t (';' :: (blanks ++ c :: more))) :
    Leads (predicateObjectList (fuel + 1) node) s ahead (predicateObjectList fuel node) t
      (c :: more) := by
  have visible : Visible ';' := visible_ascii (by decide) (by decide)
  rw [predicateObjectList, ← bind_assoc]
  refine read.leads ((reads_noSpace visible).leads (reads_peek.leads (reads_rest.leads ?_)))
  have length : (';' :: (blanks ++ c :: more)).length = blanks.length + more.length + 2 := by
    simp
    omega
  rw [length]
  refine (reads_skipSemicolons head blank _).leads (reads_peek.leads ?_)
  simp only [List.head?_cons]
  rw [if_pos (by simp [head.notEnd])]
  exact leads_refl _

theorem properties_last
    (read : ReadsTriples declared done (verb >>= objectList fuel node) s ahead new ('.' :: more)) :
    ReadsTriples declared done (predicateObjectList (fuel + 1) node) s ahead new ('.' :: more) := by
  obtain ⟨t, read, known⟩ := read
  exact ⟨t, reads_lastProperty (visible_ascii (by decide) (by decide)) (by decide) read, known⟩

/-- Behind a property and a semicolon the list goes on. -/
theorem leads_semicolon (blanks : List Char) (blank : Blanks blanks)
    (begins : ∃ c text, more = c :: text ∧ VerbHead c)
    (read : ReadsTriples declared done (verb >>= objectList fuel node) s ahead new
      (';' :: (blanks ++ more))) :
    ∃ t, Knows declared (done ++ new) t ∧ Extends s.labels t.labels ∧
      Leads (predicateObjectList (fuel + 1) node) s ahead (predicateObjectList fuel node) t more := by
  obtain ⟨c, text, rfl, head⟩ := begins
  obtain ⟨t, read, known, extended⟩ := read
  exact ⟨t, known, extended, leads_nextProperty blank head read⟩

/-- A property is read up to the sign behind its objects. -/
theorem reads_property (prefixes : PlainPrefixes declared) {property : Term × SortedSet Term}
    (plain : PlainProperty property) (known : Knows declared done s)
    (labelled : Labelled s.labels subject)
    (enough : (propertyText declared property).toList.length + 4 ≤ fuel)
    {e : Char} (visible : Visible e) (last : e ≠ ',') {blanks : List Char}
    (blank : Blanks blanks) :
    ReadsTriples declared done (verb >>= objectList fuel (subject.rename (nameOf s.labels))) s
      (blanks ++ ((propertyText declared property).toList ++ ' ' :: e :: more))
      (triplesOf subject property) (e :: more) := by
  obtain ⟨predicate, objects⟩ := property
  obtain ⟨⟨iri, same, plain, notNil⟩, filled, plain'⟩ := plain
  dsimp only at same filled plain'
  subst same
  simp only [propertyText, String.toList_append, List.length_append, List.append_assoc]
    at enough ⊢
  have enough' : (", ".intercalate (objects.toList.map (termText declared))).toList.length + 4 ≤
      fuel := by omega
  obtain ⟨t, read, known', extended⟩ :=
    reads_objectList prefixes visible last iri more filled plain' known labelled enough'
  exact ⟨t, (reads_verb prefixes known plain notNil blank _).bind read, known', extended⟩

theorem verbHead_propertiesText (prefixes : PlainPrefixes declared)
    {property : Term × SortedSet Term} {iri : String} (same : property.1 = .iri iri)
    (plain : PlainIri iri.toList) (others : List (Term × SortedSet Term)) (rest : List Char) :
    ∃ c text, (propertiesText declared (property :: others)).toList ++ rest = c :: text ∧
      VerbHead c := by
  obtain ⟨after, begins⟩ := propertiesText_begins declared property others
  rw [begins, propertyText, same]
  simp only [String.toList_append, List.append_assoc]
  exact verbHead_verbText prefixes plain _

/-- The properties of a subject are read up to the dot behind them. -/
theorem reads_properties (prefixes : PlainPrefixes declared) (more : List Char) :
    ∀ (blanks : List Char) {properties : List (Term × SortedSet Term)} {fuel : Nat}
      {done : List Triple} {s : State}, properties ≠ [] → (∀ p ∈ properties, PlainProperty p) →
      Knows declared done s → Labelled s.labels subject → Blanks blanks →
      (propertiesText declared properties).toList.length + 5 ≤ fuel →
      ReadsTriples declared done (predicateObjectList fuel (subject.rename (nameOf s.labels))) s
        (blanks ++ ((propertiesText declared properties).toList ++ ' ' :: '.' :: more))
        (properties.flatMap (triplesOf subject)) ('.' :: more)
  | _, [], _, _, _, empty, _, _, _, _, _ => absurd rfl empty
  | _, [property], fuel, _, _, _, plain, known, labelled, blank, enough => by
    obtain ⟨fuel, rfl⟩ : ∃ n, fuel = n + 1 := ⟨fuel - 1, by omega⟩
    simp only [propertiesText, List.map_singleton, String.intercalate_singleton,
      List.flatMap_singleton] at enough ⊢
    exact properties_last (reads_property prefixes (plain property (.head _)) known labelled
      (by omega) (visible_ascii (by decide) (by decide)) (by decide) blank)
  | _, property :: next :: rest, fuel, _, _, _, plain, known, labelled, blank, enough => by
    obtain ⟨fuel, rfl⟩ : ∃ n, fuel = n + 1 := ⟨fuel - 1, by omega⟩
    rw [propertiesText_cons] at enough ⊢
    simp only [List.append_assoc, List.length_append, List.length_cons, List.cons_append,
      List.flatMap_cons] at enough ⊢
    have enough' : (propertyText declared property).toList.length + 4 ≤ fuel := by omega
    have enough'' : (propertiesText declared (next :: rest)).toList.length + 5 ≤ fuel := by omega
    obtain ⟨iri, same, plainIri, -⟩ := (plain next (.tail _ (.head _))).predicate
    obtain ⟨t, known, extended, leads⟩ := leads_semicolon ['\n', ' ', ' ', ' ', ' ']
      (blanks_of_spaces (by decide)) (verbHead_propertiesText prefixes same plainIri rest _)
      (reads_property prefixes (plain property (.head _)) known labelled enough'
        (visible_ascii (by decide) (by decide)) (by decide) blank)
    obtain ⟨t', read, known', extended'⟩ := reads_properties prefixes more [] (by simp)
      (fun p member => plain p (.tail _ member)) known (labelled.extend extended)
      (blanks_of_spaces rfl) enough''
    rw [rename_extends labelled extended] at read
    rw [List.append_assoc] at known'
    exact ⟨t', leads.reads read, known', extended.trans extended'⟩

end Properties

end Reader
end RepoAudit.Rdf.Turtle
