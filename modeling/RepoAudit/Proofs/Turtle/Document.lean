import Mathlib.Data.Set.Operations
import RepoAudit.Proofs.Turtle.Statements

/-!
# Graphs read back

What the writer makes of a graph is read into a graph with the same prefixes and, up to the labels
of blank nodes, the same triples.
-/

namespace RepoAudit.Rdf.Turtle

open Text

theorem subjectText_toList (prefixes : SortedMap String String) (subject : Term)
    (properties : SortedMap Term (SortedSet Term)) :
    (subjectText prefixes subject properties).toList = (termText prefixes subject).toList ++ ' ' ::
        ((propertiesText prefixes (typesFirst properties)).toList ++ [' ', '.', '\n', '\n']) := by
  simp [subjectText]

namespace Reader

variable {declared : SortedMap String String} {done : List Triple} {s : State} {fuel : Nat}

/-! ### Statements about a subject -/

/-- A subject is read, and its properties are what comes next. -/
theorem leads_about (prefixes : PlainPrefixes declared) (known : Knows declared done s)
    {subject : Term} (plain : PlainTerm subject) (notLiteral : subject.isLiteral = false)
    (fuel : Nat) (rest : List Char) :
    ∃ c more, (termText declared subject).toList ++ ' ' :: rest = c :: more ∧ Visible c ∧
      ∃ t, Knows declared done t ∧ Extends s.labels t.labels ∧ Labelled t.labels subject ∧
        Leads (statement (fuel + 2)) s (c :: more) (do
          predicateObjectList (fuel + 2) (subject.rename (nameOf t.labels))
          expect '.') t (' ' :: rest) := by
  obtain ⟨c, more, begins, head, t, read, known, extended, labelled⟩ :=
    reads_subject prefixes known plain notLiteral fuel rest
  refine ⟨c, more, begins, head.visible, t, known, extended, labelled, ?_⟩
  have keyword {word : String} (member : word ∈ ["@prefix", "@base", "prefix", "base"]) :
      Reads (atKeyword word) s (c :: more) false s (c :: more) :=
    reads_atKeyword (head.noKeyword word member)
  rw [statement]
  refine (keyword (by simp)).leads ((keyword (by simp)).leads ((keyword (by simp)).leads
    ((keyword (by simp)).leads (Leads.bind ?_ _))))
  rw [triples]
  refine (reads_noSpace head.visible).leads (reads_peek.leads ?_)
  rw [List.head?_cons, if_neg (by simpa using head.notBracket)]
  exact read.leads (leads_refl _)

/-- The statements about a subject are read with the dot behind them. -/
theorem reads_about (prefixes : PlainPrefixes declared)
    {entry : Term × SortedMap Term (SortedSet Term)} (plain : PlainSubject entry)
    (known : Knows declared done s)
    (enough : (subjectText declared entry.1 entry.2).toList.length ≤ fuel) (rest : List Char) :
    ∃ c more, (subjectText declared entry.1 entry.2).toList ++ rest = c :: more ∧ Visible c ∧
      ReadsTriples declared done (statement fuel) s (c :: more) (triplesAbout entry)
        ('\n' :: '\n' :: rest) := by
  obtain ⟨subject, properties⟩ := entry
  obtain ⟨plain, notLiteral, filled, plain'⟩ := plain
  dsimp only at plain notLiteral filled plain' enough ⊢
  rw [subjectText_toList] at enough ⊢
  simp only [List.length_append, List.length_cons, List.append_assoc, List.cons_append,
    List.nil_append] at enough ⊢
  have enough' : (propertiesText declared (typesFirst properties)).toList.length + 5 ≤ fuel := by
    omega
  obtain ⟨fuel, rfl⟩ : ∃ n, fuel = n + 2 := ⟨fuel - 2, by omega⟩
  obtain ⟨c, more, begins, visible, t, known', extended, labelled, leads⟩ :=
    leads_about prefixes known plain notLiteral fuel
      ((propertiesText declared (typesFirst properties)).toList ++
        ' ' :: '.' :: '\n' :: '\n' :: rest)
  obtain ⟨t', read, known'', extended'⟩ := reads_properties prefixes ('\n' :: '\n' :: rest) [' ']
    filled plain' known' labelled (blanks_of_spaces rfl) enough'
  have dot : Reads (expect '.') t' ('.' :: '\n' :: '\n' :: rest) () t' ('\n' :: '\n' :: rest) :=
    reads_expect (visible_ascii (by decide) (by decide))
  exact ⟨c, more, begins, visible, t', leads.reads (read.bind dot), known'',
    extended.trans extended'⟩

/-! ### Documents -/

theorem leads_statements {c : Char} (visible : Visible c) {blanks : List Char}
    (blank : Blanks blanks) (more : List Char) (n : Nat) :
    Leads (statements fuel (n + 1)) s (blanks ++ c :: more) (do
      statement fuel
      statements fuel n) s (c :: more) := by
  rw [statements]
  refine (reads_skipSpace blanks blank (spaceLength_visible visible more)).leads ?_
  exact reads_peek.leads (leads_refl _)

theorem statements_nil {blanks : List Char} (blank : Blanks blanks) (n : Nat) :
    Reads (statements fuel (n + 1)) s blanks () s [] := by
  have skipped : Reads skipSpace s (blanks ++ []) () s [] := reads_skipSpace blanks blank rfl
  rw [List.append_nil] at skipped
  rw [statements]
  exact skipped.bind (reads_peek.bind (reads_pure _))

/-- The subjects of a graph are read to the end of the text. -/
theorem reads_subjects (prefixes : PlainPrefixes declared) :
    ∀ (blanks : List Char) {entries : List (Term × SortedMap Term (SortedSet Term))} {n : Nat}
      {done : List Triple} {s : State}, (∀ e ∈ entries, PlainSubject e) → Knows declared done s →
      Blanks blanks →
      (entries.flatMap fun e => (subjectText declared e.1 e.2).toList).length ≤ fuel →
      entries.length < n →
      ReadsTriples declared done (statements fuel n) s
        (blanks ++ entries.flatMap fun e => (subjectText declared e.1 e.2).toList)
        (entries.flatMap triplesAbout) []
  | blanks, [], n, done, s, _, known, blank, _, enough => by
    obtain ⟨n, rfl⟩ : ∃ k, n = k + 1 := ⟨n - 1, by simp at enough; omega⟩
    refine ⟨s, ?_, by simpa using known, .refl _⟩
    simpa using statements_nil blank n
  | blanks, entry :: rest, n, done, s, plain, known, blank, long, enough => by
    obtain ⟨n, rfl⟩ : ∃ k, n = k + 1 := ⟨n - 1, by simp at enough; omega⟩
    simp only [List.flatMap_cons, List.length_append, List.length_cons] at long enough ⊢
    have long' : (subjectText declared entry.1 entry.2).toList.length ≤ fuel := by omega
    obtain ⟨c, more, begins, visible, t, read, known', extended⟩ := reads_about prefixes
      (plain entry (.head _)) known long'
      (rest.flatMap fun e => (subjectText declared e.1 e.2).toList)
    obtain ⟨u, read', known'', extended'⟩ := reads_subjects prefixes ['\n', '\n'] (n := n)
      (fun e member => plain e (.tail _ member)) known'
      (blanks_of_spaces rfl) (by omega) (by omega)
    rw [List.append_assoc] at known''
    rw [begins]
    exact ⟨u, (leads_statements visible blank more n).reads (read.bind read'), known'',
      extended.trans extended'⟩

/-- A line that declares a prefix is read up to its end. -/
theorem reads_prefix {name iri : String} (plain : PlainPrefix name.toList)
    (plain' : PlainIri iri.toList) (known : Knows declared done s) (fuel : Nat) (rest : List Char) :
    ∃ more, (prefixText (name, iri)).toList ++ rest = '@' :: more ∧
      ∃ t, Reads (statement fuel) s ('@' :: more) () t ('\n' :: rest) ∧
        Knows (declared.insert name iri) done t := by
  have colon : isNameChar ':' = false := by decide
  let declaration := name.toList ++ ':' :: ' ' :: '<' :: (iri.toList ++ '>' :: ' ' :: '.' :: '\n' :: rest)
  have text : (prefixText (name, iri)).toList ++ rest = "@prefix".toList ++ ' ' :: declaration := by
    simp [prefixText, declaration]
  refine ⟨_, text, _, ?_, knows_prefix known name iri⟩
  have keyed : startsWithKeyword "@prefix".toList ("@prefix".toList ++ ' ' :: declaration) = true :=
    startsWithKeyword_stop (by decide) (.inl rfl) _
  rw [statement]
  refine (reads_atKeyword keyed).bind ((reads_take 7).bind ?_)
  have dot {t : State} : Reads (expect '.') t (' ' :: '.' :: '\n' :: rest) () t ('\n' :: rest) :=
    reads_expect_blank (visible_ascii (by decide) (by decide))
  refine Reads.bind (a := ()) ?_ dot
  obtain ⟨c, more, begins, head⟩ := nameHead_of_plain plain
    (' ' :: '<' :: (iri.toList ++ '>' :: ' ' :: '.' :: '\n' :: rest))
  have skipped : Reads skipSpace s (' ' :: c :: more) () s (c :: more) := reads_blank head.visible
  rw [← begins] at skipped
  rw [prefixDecl]
  refine skipped.bind (reads_rest.bind ?_)
  simp only [takeWhile_stop plain.named colon, List.drop_left]
  refine (reads_take_append name.toList).bind ?_
  refine (reads_expect (visible_ascii (by decide) (by decide))).bind ?_
  refine (reads_blank (visible_ascii (by decide) (by decide))).bind ?_
  refine (reads_iriRef plain' known.base).bind ?_
  rw [String.ofList_toList, String.ofList_toList]
  exact reads_learned fun c => rfl

/-- The lines of prefixes are read, and what follows them is what comes next. -/
theorem leads_lines (fuel : Nat) (rest : List Char) (n : Nat) :
    ∀ (blanks : List Char) (lines : List (String × String)) {declared : SortedMap String String}
      {s : State}, (∀ e ∈ lines, PlainPrefix e.1.toList ∧ PlainIri e.2.toList) →
      Knows declared [] s → Blanks blanks →
      ∃ t blanks', Knows (lines.foldl (fun m e => m.insert e.1 e.2) declared) [] t ∧
        Blanks blanks' ∧ Leads (statements fuel (n + lines.length)) s
          (blanks ++ (lines.flatMap (fun e => (prefixText e).toList) ++ rest)) (statements fuel n) t
          (blanks' ++ rest)
  | blanks, [], declared, s, _, known, blank => ⟨s, blanks, known, blank, leads_refl _⟩
  | blanks, (name, iri) :: others, declared, s, plain, known, blank => by
    obtain ⟨named, plainIri⟩ := plain _ (.head _)
    rw [List.flatMap_cons, List.append_assoc, List.length_cons, ← Nat.add_assoc]
    obtain ⟨more, begins, t, read, known⟩ := reads_prefix named plainIri known fuel
      (others.flatMap (fun e => (prefixText e).toList) ++ rest)
    obtain ⟨u, blanks', known, blank', leads⟩ := leads_lines fuel rest n ['\n'] others
      (fun e member => plain e (.tail _ member)) known (blanks_of_spaces rfl)
    have visible : Visible '@' := visible_ascii (by decide) (by decide)
    rw [begins]
    exact ⟨u, blanks', known, blank',
      (leads_statements visible blank more _).trans (read.leads leads)⟩

end Reader

/-! ### Graphs -/

/-- What survives being written: no character of an IRI, a label, a tag or a prefix ends it early or
makes it look like something else. -/
structure Writable (g : Graph) : Prop where
  prefixes : PlainPrefixes g.prefixes
  subjects : ∀ t ∈ g, PlainTerm t.subject ∧ t.subject.isLiteral = false
  predicates : ∀ t ∈ g, ∃ iri, t.predicate = .iri iri ∧ PlainIri iri.toList ∧ iri ≠ rdf "nil"
  objects : ∀ t ∈ g, PlainTerm t.object

variable {g : Graph}

/-- Every subject has a property and every property an object. -/
theorem mem_of_entry {entry : Term × SortedMap Term (SortedSet Term)}
    (member : entry ∈ g.bySubject.entries) :
    (∃ p, p ∈ typesFirst entry.2) ∧ ∀ p ∈ typesFirst entry.2,
      (∃ o, o ∈ p.2.toList) ∧ ∀ o ∈ p.2.toList, ⟨entry.1, p.1, o⟩ ∈ g := by
  obtain ⟨subject, m⟩ := entry
  obtain ⟨filled, occupied⟩ := g.occupied.1 subject m ((SortedMap.mem_entries _).mp member)
  obtain ⟨property, stored⟩ := SortedMap.exists_entry filled
  refine ⟨⟨property, mem_typesFirst.mpr stored⟩, ?_⟩
  rintro ⟨p, os⟩ stored
  replace stored := mem_typesFirst.mp stored
  refine ⟨SortedSet.exists_mem (occupied p os ((SortedMap.mem_entries _).mp stored)), ?_⟩
  intro o o_mem
  exact Graph.mem_iff_entries.mpr ⟨m, os, member, stored, o_mem⟩

theorem Writable.plainSubject (writable : Writable g)
    {entry : Term × SortedMap Term (SortedSet Term)} (member : entry ∈ g.bySubject.entries) :
    PlainSubject entry := by
  obtain ⟨⟨property, first⟩, held⟩ := mem_of_entry member
  obtain ⟨⟨o, o_mem⟩, objects⟩ := held property first
  obtain ⟨plain, notLiteral⟩ := writable.subjects _ (objects o o_mem)
  refine ⟨plain, notLiteral, List.ne_nil_of_mem first, fun p stored => ?_⟩
  obtain ⟨⟨o, o_mem⟩, objects⟩ := held p stored
  exact ⟨writable.predicates _ (objects o o_mem), List.ne_nil_of_mem o_mem,
    fun o o_mem => writable.objects _ (objects o o_mem)⟩

theorem mem_triplesAbout {t : Triple} :
    t ∈ g.bySubject.entries.flatMap triplesAbout ↔ t ∈ g := by
  obtain ⟨s, p, o⟩ := t
  simp only [triplesAbout, triplesOf, Graph.mem_iff_entries, List.mem_flatMap, List.mem_map,
    Triple.mk.injEq, mem_typesFirst]
  constructor
  · rintro ⟨⟨_, m⟩, member, ⟨_, os⟩, stored, _, o_mem, rfl, rfl, rfl⟩
    exact ⟨m, os, member, stored, o_mem⟩
  · rintro ⟨m, os, member, stored, o_mem⟩
    exact ⟨(s, m), member, (p, os), stored, o, o_mem, rfl, rfl, rfl⟩

theorem write_toList (g : Graph) : (write g).toList =
    g.prefixes.entries.flatMap (fun e => (prefixText e).toList) ++
      ((if g.prefixes.isEmpty then "" else "\n").toList ++
        g.bySubject.entries.flatMap fun e => (subjectText g.prefixes e.1 e.2).toList) := by
  simp [write, List.flatMap_def, Function.comp_def]

theorem length_le_flatMap {α : Type} {f : α → List Char} (filled : ∀ a, f a ≠ []) (as : List α) :
    as.length ≤ (as.flatMap f).length := by
  induction as with
  | nil => exact Nat.le_refl 0
  | cons a rest ih =>
    have := List.length_pos_iff.mpr (filled a)
    rw [List.flatMap_cons, List.length_append, List.length_cons]
    omega

theorem knows_nothing : Knows ∅ [] { cursor := ⟨[], [], 1, 1⟩, graph := ∅ } where
  base := rfl
  prefixes := rfl
  kept := rfl
  numbered := by simp
  distinct := by simp
  labelled := by simp
  held := by simp

/-- The reader of a written graph comes to its subjects, and knows its prefixes by then. -/
theorem leads_written (prefixes : PlainPrefixes g.prefixes) : ∃ t fuel n blanks,
    Knows g.prefixes [] t ∧ Blanks blanks ∧ g.bySubject.entries.length < n ∧
    (g.bySubject.entries.flatMap fun e => (subjectText g.prefixes e.1 e.2).toList).length ≤ fuel ∧
    Reader.Leads Reader.document { cursor := ⟨[], [], 1, 1⟩, graph := ∅ } (write g).toList
      (Reader.statements fuel n) t
      (blanks ++ g.bySubject.entries.flatMap fun e => (subjectText g.prefixes e.1 e.2).toList) := by
  have text := write_toList g
  have length := congrArg List.length text
  simp only [List.length_append] at length
  have lines : g.prefixes.entries.length ≤
      (g.prefixes.entries.flatMap fun e => (prefixText e).toList).length :=
    length_le_flatMap (fun e => by simp [prefixText]) _
  have subjects : g.bySubject.entries.length ≤
      (g.bySubject.entries.flatMap fun e => (subjectText g.prefixes e.1 e.2).toList).length :=
    length_le_flatMap (fun e => by simp [subjectText]) _
  have gap : Blanks (if g.prefixes.isEmpty then "" else "\n").toList := by
    refine blanks_of_spaces ?_
    split <;> rfl
  obtain ⟨n, enough⟩ : ∃ n, (write g).toList.length + 1 = n + g.prefixes.entries.length :=
    ⟨(write g).toList.length + 1 - g.prefixes.entries.length, by omega⟩
  obtain ⟨t, blanks, known, blank, leads⟩ := Reader.leads_lines
    (4 * (write g).toList.length + 4) _ n [] g.prefixes.entries
    (fun e member => prefixes _ _ ((SortedMap.mem_entries _).mp member))
    knows_nothing (blanks_of_spaces rfl)
  rw [List.nil_append, ← text, ← List.append_assoc] at leads
  change Knows (SortedMap.ofList g.prefixes.entries) [] t at known
  rw [SortedMap.ofList_entries] at known
  refine ⟨t, _, n, _, known, ?_, by omega, ?_, Reader.reads_rest.leads (enough ▸ leads)⟩
  · exact fun d member => (List.mem_append.mp member).elim (blank d) (gap d)
  · omega

/-- The reader of a written graph comes to know its prefixes and all its triples. -/
theorem knows_written (writable : Writable g) (source : String) :
    ∃ s, read (write g) source = .ok s.graph ∧
      Knows g.prefixes (g.bySubject.entries.flatMap triplesAbout) s := by
  obtain ⟨s, fuel, n, blanks, known, blank, enough, long, leads⟩ := leads_written writable.prefixes
  obtain ⟨t, read, known, -⟩ := Reader.reads_subjects writable.prefixes blanks
    (fun e member => writable.plainSubject member) known blank long enough
  obtain ⟨c, -, ran⟩ := (leads.reads read) ⟨[], (write g).toList, 1, 1⟩ rfl
  refine ⟨t.at c, ?_, known.at c⟩
  change Reader.document.run { cursor := ⟨[], (write g).toList, 1, 1⟩, graph := ∅ } = _ at ran
  rw [Turtle.read, readInto, ran]

theorem Knows.injOn_nameOf {declared : SortedMap String String} {s : State}
    (known : Knows declared (g.bySubject.entries.flatMap triplesAbout) s) :
    Set.InjOn (nameOf s.labels) g.labels := by
  have named {label : String} (member : label ∈ g.labels) :
      s.labels.get? label = some (.blank (nameOf s.labels label)) := by
    obtain ⟨t, held, place⟩ := member
    obtain ⟨subject, -, object⟩ := known.labelled t (mem_triplesAbout.mpr held)
    have labelled : (s.labels.get? label).isSome := place.elim (subject label) (object label)
    obtain ⟨node, found⟩ := Option.isSome_iff_exists.mp labelled
    obtain ⟨k, -, rfl⟩ := known.numbered label node found
    rw [nameOf, found]
  intro label member label' member' same
  have found := named member
  rw [same] at found
  exact known.distinct label label' _ found (named member')

/-- Writing a graph and reading it back gives the same prefixes and, up to an injective renaming of
blank nodes, the same triples. -/
theorem read_write (writable : Writable g) (source : String) :
    ∃ h, read (write g) source = .ok h ∧ h.prefixes = g.prefixes ∧
      ∃ f : String → String, Set.InjOn f g.labels ∧ ∀ t, t ∈ h ↔ ∃ u ∈ g, t = u.rename f := by
  obtain ⟨s, read, known⟩ := knows_written writable source
  refine ⟨s.graph, read, known.kept, nameOf s.labels, known.injOn_nameOf, fun t => ?_⟩
  rw [known.held]
  simp only [mem_triplesAbout]

/-- What is said of a note: its type, its text, its size and that it has no pages. -/
def noteTriples : List Triple :=
  [⟨.blank "n.1", .iri (rdf "type"), .iri "urn:ex:Note"⟩,
   ⟨.blank "n.1", .iri "urn:ex:text", .literal ⟨"\"Hi\"\n", rdf "langString", some "en-gb"⟩⟩,
   ⟨.blank "n.1", .iri "urn:ex:size", .typed "5" (xsd "integer")⟩,
   ⟨.blank "n.1", .iri "urn:pages", .iri (rdf "nil")⟩]

def note : Graph := (Graph.setPrefix ∅ "ex" "urn:ex:").insertMany noteTriples

theorem writable_note : Writable note := by
  have label : PlainTerm (.blank "n.1") := ⟨by decide, List.all_eq_true.mp (by decide), by decide⟩
  have held {t : Triple} (member : t ∈ note) : t ∈ noteTriples := by
    rwa [note, Graph.mem_insertMany, Graph.mem_setPrefix, or_iff_left (Graph.not_mem_empty t)]
      at member
  have each {p : Triple → Prop} (all : ∀ t ∈ noteTriples, p t) : ∀ t ∈ note, p t :=
    fun t member => all t (held member)
  refine ⟨fun name iri found => ?_, each ?_, each ?_, each ?_⟩
  · rw [note, Graph.prefixes_insertMany, Graph.setPrefix, SortedMap.get?_insert] at found
    split at found
    · rename_i same
      rw [same, ← Option.some.inj found]
      refine ⟨⟨List.all_eq_true.mp (by decide), by decide, ?_⟩, by decide⟩
      rintro c ⟨rfl⟩
      decide
    · cases found
  · simp only [noteTriples, List.forall_mem_cons]
    exact ⟨⟨label, rfl⟩, ⟨label, rfl⟩, ⟨label, rfl⟩, ⟨label, rfl⟩, by simp⟩
  · simp only [noteTriples, List.forall_mem_cons]
    exact ⟨⟨_, rfl, by decide, by decide⟩, ⟨_, rfl, by decide, by decide⟩,
      ⟨_, rfl, by decide, by decide⟩, ⟨_, rfl, by decide, by decide⟩, by simp⟩
  · have plainIri (iri : String) (plain : PlainIri iri.toList) : PlainTerm (.iri iri) := plain
    simp only [noteTriples, List.forall_mem_cons]
    refine ⟨plainIri _ (by decide), ⟨by decide, by decide, ?_⟩, ⟨by decide, by decide, ?_⟩,
      plainIri _ (by decide), by simp⟩
    · rintro tag ⟨rfl⟩
      exact ⟨rfl, by decide, List.all_eq_true.mp (by decide)⟩
    · rintro tag ⟨⟩

theorem read_write_note : Writable note ∧
    ∃ h, read (write note) "note" = .ok h ∧ h.prefixes = note.prefixes ∧
      ∃ f : String → String, Set.InjOn f note.labels ∧
        ∀ t, t ∈ h ↔ ∃ u ∈ note, t = u.rename f :=
  ⟨writable_note, read_write writable_note "note"⟩

end RepoAudit.Rdf.Turtle
