import RepoAudit.Proofs.Turtle.Labels

/-!
# Subjects, predicates and objects read back

The first characters of a written term lead the reader to the step that reads it.
-/

namespace RepoAudit.Rdf.Turtle.Reader

open Text

-- the equations of these steps are made here once, and not by every proof that unfolds them
attribute [local simp] collection collectionItems object subject verb

variable {declared : SortedMap String String} {done : List Triple} {s : State} {left : List Char}

/-- `()` is the empty collection. -/
theorem reads_nil (fuel : Nat) :
    Reads (collection (fuel + 2)) s ('(' :: ')' :: left) (.iri (rdf "nil")) s left := by
  have opened : Reads (expect '(') s ('(' :: ')' :: left) () s (')' :: left) :=
    reads_expect (visible_ascii (by decide) (by decide))
  have closed : Reads (collectionItems (fuel + 1)) s (')' :: left) [] s left := by
    rw [collectionItems]
    refine (reads_noSpace (visible_ascii (by decide) (by decide))).bind (reads_peek.bind ?_)
    exact (reads_take 1).bind (reads_pure _)
  rw [collection]
  exact opened.bind (closed.bind (reads_know fun c => (reads_learned fun c => rfl).bind (reads_pure _)))

/-! ### Objects

An object stands behind one blank. -/

variable {fuel : Nat} {c : Char} {more : List Char}

theorem object_iriRef {iri : String} (read : Reads iriRef s ('<' :: more) iri s left) :
    Reads (object (fuel + 1)) s (' ' :: '<' :: more) (.iri iri) s left := by
  rw [object]
  refine (reads_blank (visible_ascii (by decide) (by decide))).bind (reads_rest.bind ?_)
  exact read.bind (reads_pure _)

/-- Behind any blanks, a text is read as a literal. -/
theorem leads_quoted {blanks : List Char} (blank : Blanks blanks) (lexical : String)
    (more : List Char) :
    Leads (object (fuel + 1)) s (blanks ++ ((Term.quoted lexical).toList ++ more)) literal s
      ((Term.quoted lexical).toList ++ more) := by
  have quoted : (Term.quoted lexical).toList ++ more =
      '"' :: ((Term.escaped lexical).toList ++ '"' :: more) := by simp [Term.quoted]
  have visible : Visible '"' := visible_ascii (by decide) (by decide)
  rw [quoted, object]
  refine (reads_skipSpace _ blank (spaceLength_visible visible _)).leads (reads_rest.leads ?_)
  exact leads_refl _

theorem leads_literal (lexical : String) (more : List Char) :
    Leads (object (fuel + 1)) s (' ' :: ((Term.quoted lexical).toList ++ more)) literal s
      ((Term.quoted lexical).toList ++ more) := by
  have blank : Blanks [' '] := blanks_of_spaces rfl
  exact leads_quoted blank lexical more

theorem object_collection {u : Term} {t : State}
    (read : Reads (collection fuel) s ('(' :: more) u t left) :
    Reads (object (fuel + 1)) s (' ' :: '(' :: more) u t left := by
  rw [object]
  exact (reads_blank (visible_ascii (by decide) (by decide))).bind (reads_rest.bind read)

theorem object_blankLabel {u : Term} {t : State}
    (read : Reads blankLabel s ('_' :: ':' :: more) u t left) :
    Reads (object (fuel + 1)) s (' ' :: '_' :: ':' :: more) u t left := by
  rw [object]
  exact (reads_blank (visible_ascii (by decide) (by decide))).bind (reads_rest.bind read)

theorem object_boolean (b : Bool) {d : Char} (stop : Delimiter d) {rest : List Char} :
    Reads (object (fuel + 1)) s (' ' :: ((if b then "true" else "false").toList ++ d :: rest))
      (.boolean b) s (d :: rest) := by
  rw [object]
  cases b with
  | true =>
    refine (reads_blank (c := 't') (visible_ascii (by decide) (by decide))).bind (reads_rest.bind ?_)
    have keyed : startsWithKeyword "true".toList ("true".toList ++ d :: rest) = true :=
      startsWithKeyword_stop (by decide) stop rest
    exact (reads_atKeyword keyed).bind ((reads_take 4).bind (reads_pure _))
  | false =>
    refine (reads_blank (c := 'f') (visible_ascii (by decide) (by decide))).bind (reads_rest.bind ?_)
    have other : startsWithKeyword "true".toList ("false".toList ++ d :: rest) = false :=
      startsWithKeyword_other (by decide) _ _
    have keyed : startsWithKeyword "false".toList ("false".toList ++ d :: rest) = true :=
      startsWithKeyword_stop (by decide) stop rest
    refine (reads_atKeyword other).bind ((reads_atKeyword keyed).bind ?_)
    exact (reads_take 5).bind (reads_pure _)

theorem object_number {text : List Char}
    (begins : ∃ c more, text = c :: more ∧ isNumberHead c = true) {u : Term}
    (read : Reads number s (text ++ more) u s left) :
    Reads (object (fuel + 1)) s (' ' :: (text ++ more)) u s left := by
  obtain ⟨c, text, rfl, head⟩ := begins
  have other {d : Char} (unlike : isNumberHead d = false) : c ≠ d := by
    rintro rfl
    rw [head] at unlike
    cases unlike
  rw [object]
  refine (reads_blank (visible_of_isNumberHead head)).bind (reads_rest.bind ?_)
  split
  · rename_i ended
    cases ended
  · rename_i rest begins
    exact absurd (List.cons.inj begins).1 (other (by decide))
  · rename_i c' more' _ begins
    obtain ⟨rfl, rfl⟩ := List.cons.inj begins
    have bracket : c ≠ '<' ∧ c ≠ '[' ∧ c ≠ '(' ∧ c ≠ '"' ∧ c ≠ '\'' :=
      ⟨other (by decide), other (by decide), other (by decide), other (by decide), other (by decide)⟩
    have number : (c.isDigit || c == '+' || c == '-' || c == '.') = true := head
    simp only [bracket, number, beq_iff_eq, Bool.or_eq_true, or_self, if_false, if_true]
    exact read

theorem object_prefixedName (head : NameHead c more) {iri : String}
    (read : Reads prefixedName s (c :: more) iri s left) :
    Reads (object (fuel + 1)) s (' ' :: c :: more) (.iri iri) s left := by
  rw [object]
  refine (reads_blank head.visible).bind (reads_rest.bind ?_)
  split
  · rename_i ended
    cases ended
  · rename_i rest begins
    obtain ⟨rfl, rfl⟩ := List.cons.inj begins
    exact absurd rfl (head.notBlank rfl)
  · rename_i c' more' _ begins
    obtain ⟨rfl, rfl⟩ := List.cons.inj begins
    have bracket : c ≠ '<' ∧ c ≠ '[' ∧ c ≠ '(' :=
      ⟨head.ne (by decide) (by decide), head.ne (by decide) (by decide),
        head.ne (by decide) (by decide)⟩
    have other : c ≠ '"' ∧ c ≠ '\'' ∧ c ≠ '+' :=
      ⟨head.ne (by decide) (by decide), head.ne (by decide) (by decide),
        head.ne (by decide) (by decide)⟩
    obtain ⟨digit, minus, dot⟩ := head.notNumber
    simp only [bracket, other, digit, minus, dot, beq_iff_eq, Bool.false_eq_true, if_false,
      Bool.or_eq_true, or_self]
    refine (reads_atKeyword (head.noKeyword _ (by decide))).bind ?_
    refine (reads_atKeyword (head.noKeyword _ (by decide))).bind ?_
    exact read.bind (reads_pure _)

section Written

variable (prefixes : PlainPrefixes declared) (known : Knows declared done s) {d : Char}
  (stop : Delimiter d) {rest : List Char}

include prefixes known stop

theorem object_iriText {iri : String} (plain : PlainIri iri.toList) :
    Reads (object (fuel + 3)) s (' ' :: ((iriText declared iri).toList ++ d :: rest)) (.iri iri) s
      (d :: rest) := by
  by_cases empty : iri = rdf "nil"
  · rw [empty, iriText_nil]
    exact object_collection (reads_nil fuel)
  · have form := iriForm_iriText prefixes plain empty
    rw [← known.prefixes] at form ⊢
    rcases reads_iri form known.base stop rest with ⟨more, begins, read⟩ | ⟨c, more, begins, head, read⟩
    · rw [begins]
      exact object_iriRef read
    · rw [begins]
      exact object_prefixedName head read

theorem object_literalText {l : Literal} (plain : PlainLiteral l) :
    Reads (object (fuel + 3)) s (' ' :: ((literalText declared l).toList ++ d :: rest)) (.literal l) s
      (d :: rest) := by
  obtain ⟨lexical, datatype, lang⟩ := l
  cases lang with
  | some tag =>
    obtain ⟨rfl, filled, plain⟩ := plain.tagged tag rfl
    have text : (literalText declared ⟨lexical, rdf "langString", some tag⟩).toList ++ d :: rest =
        (Term.quoted lexical).toList ++ '@' :: (tag.toList ++ d :: rest) := by simp [literalText]
    rw [text]
    exact (leads_literal lexical _).reads (literal_langString lexical filled plain stop)
  | none =>
    simp only [literalText]
    split
    · rename_i string
      rw [eq_of_beq string]
      exact (leads_literal lexical _).reads (literal_string lexical stop)
    split
    · rename_i bare
      simp only [Bool.or_eq_true, Bool.and_eq_true, beq_iff_eq] at bare
      rcases bare with (⟨rfl, integer⟩ | ⟨rfl, decimal⟩) | ⟨rfl, boolean⟩
      · have read := reads_number (s := s) (scanNumber_integer integer stop rest)
        rw [String.ofList_toList] at read
        exact object_number (numberHead_integer integer) read
      · have read := reads_number (s := s) (scanNumber_decimal decimal stop rest)
        rw [String.ofList_toList] at read
        exact object_number (numberHead_decimal decimal) read
      · rcases boolean with rfl | rfl
        · exact object_boolean true stop
        · exact object_boolean false stop
    · have form := iriForm_iriText prefixes plain.datatype plain.notNil
      rw [← known.prefixes] at form ⊢
      have text : (Term.quoted lexical ++ "^^" ++ iriText s.prefixes datatype).toList ++ d :: rest =
          (Term.quoted lexical).toList ++
            '^' :: '^' :: ((iriText s.prefixes datatype).toList ++ d :: rest) := by simp
      rw [text]
      exact (leads_literal lexical _).reads (literal_typed lexical form known.base stop)

omit prefixes known stop in
theorem text_blank (label : String) (rest : List Char) :
    (termText declared (.blank label)).toList ++ rest = '_' :: ':' :: (label.toList ++ rest) := by
  simp [termText]

/-- Every term that can be written is read again as an object. -/
theorem reads_object {u : Term} (plain : PlainTerm u) :
    ReadsTerm declared done (object (fuel + 3)) s (' ' :: ((termText declared u).toList ++ d :: rest)) u
      (d :: rest) := by
  cases u with
  | iri => exact .of_not_isBlank known rfl (object_iriText prefixes known stop plain)
  | literal => exact .of_not_isBlank known rfl (object_literalText prefixes known stop plain)
  | blank label =>
    obtain ⟨t, read, known, extended, labelled⟩ := reads_blankLabel plain known stop rest
    refine ⟨t, ?_, known, extended, labelled⟩
    rw [text_blank]
    exact object_blankLabel read

end Written

/-! ### Subjects -/

/-- How a subject begins. -/
structure SubjectHead (c : Char) (more : List Char) : Prop where
  visible : Visible c
  notBracket : c ≠ '['
  noKeyword : ∀ keyword ∈ ["@prefix", "@base", "prefix", "base"],
    startsWithKeyword keyword.toList (c :: more) = false

theorem subjectHead_of_mark (mark : c = '<' ∨ c = '(' ∨ c = '_') (more : List Char) :
    SubjectHead c more := by
  rcases mark with rfl | rfl | rfl
  all_goals
    refine ⟨visible_ascii (by decide) (by decide), by decide, fun keyword member => ?_⟩
    simp only [List.mem_cons, List.not_mem_nil, or_false] at member
    rcases member with rfl | rfl | rfl | rfl <;> exact startsWithKeyword_other (by decide) _ _

theorem subjectHead_of_name (head : NameHead c more) : SubjectHead c more := by
  refine ⟨head.visible, head.ne (by decide) (by decide), fun keyword member => ?_⟩
  refine head.noKeyword _ ?_
  simp only [List.mem_cons, List.not_mem_nil, or_false] at member
  rcases member with rfl | rfl | rfl | rfl <;> decide

theorem subject_prefixedName (head : NameHead c more) {iri : String}
    (read : Reads prefixedName s (c :: more) iri s left) :
    Reads (subject fuel) s (c :: more) (.iri iri) s left := by
  rw [subject]
  refine (reads_noSpace head.visible).bind (reads_rest.bind ?_)
  split
  · rename_i ended
    cases ended
  · rename_i rest begins
    obtain ⟨rfl, rfl⟩ := List.cons.inj begins
    exact absurd rfl (head.notBlank rfl)
  · rename_i c' more' _ begins
    obtain ⟨rfl, rfl⟩ := List.cons.inj begins
    have bracket : c ≠ '<' ∧ c ≠ '(' :=
      ⟨head.ne (by decide) (by decide), head.ne (by decide) (by decide)⟩
    simp only [bracket, beq_iff_eq, if_false]
    exact read.bind (reads_pure _)

/-- Every subject that can be written is read again, and is not taken for anything else. -/
theorem reads_subject (prefixes : PlainPrefixes declared) (known : Knows declared done s) {u : Term}
    (plain : PlainTerm u) (notLiteral : u.isLiteral = false) (fuel : Nat) (rest : List Char) :
    ∃ c more, (termText declared u).toList ++ ' ' :: rest = c :: more ∧ SubjectHead c more ∧
      ReadsTerm declared done (subject (fuel + 2)) s (c :: more) u (' ' :: rest) := by
  have stop : Delimiter ' ' := .inl rfl
  have shown {c : Char} (mark : c = '<' ∨ c = '(' ∨ c = '_') (more : List Char) :
      Reads skipSpace s (c :: more) () s (c :: more) :=
    reads_noSpace (subjectHead_of_mark mark more).visible
  cases u with
  | literal => cases notLiteral
  | blank label =>
    obtain ⟨t, read, known, extended, labelled⟩ := reads_blankLabel plain known stop rest
    refine ⟨'_', _, by rw [text_blank], subjectHead_of_mark (by simp) _, t, ?_, known, extended,
      labelled⟩
    rw [subject]
    exact (shown (by simp) _).bind (reads_rest.bind read)
  | iri iri =>
    by_cases empty : iri = rdf "nil"
    · rw [empty, termText, iriText_nil]
      refine ⟨'(', _, rfl, subjectHead_of_mark (by simp) _, .of_not_isBlank known rfl ?_⟩
      rw [subject]
      exact (shown (by simp) _).bind (reads_rest.bind (reads_nil fuel))
    · have form := iriForm_iriText prefixes plain empty
      rw [← known.prefixes] at form
      rw [termText, ← known.prefixes]
      rcases reads_iri form known.base stop rest with
        ⟨more, begins, read⟩ | ⟨c, more, begins, head, read⟩
      · refine ⟨'<', more, begins, subjectHead_of_mark (by simp) _, ?_⟩
        rw [known.prefixes]
        refine .of_not_isBlank known rfl ?_
        rw [subject]
        exact (shown (by simp) _).bind (reads_rest.bind (read.bind (reads_pure _)))
      · refine ⟨c, more, begins, subjectHead_of_name head, ?_⟩
        rw [known.prefixes]
        exact .of_not_isBlank known rfl (subject_prefixedName head read)

/-! ### Predicates -/

theorem verb_prefixedName {blanks : List Char} (blank : Blanks blanks)
    (head : NameHead c more) {iri : String} (read : Reads prefixedName s (c :: more) iri s left) :
    Reads verb s (blanks ++ c :: more) (.iri iri) s left := by
  rw [verb]
  refine (reads_skipSpace _ blank (spaceLength_visible head.visible _)).bind (reads_rest.bind ?_)
  split
  · rename_i d rest begins
    obtain ⟨rfl, rfl⟩ := List.cons.inj begins
    have named : isNameChar d = true ∨ d = ':' :=
      head.next.resolve_left (by decide) d rfl
    have noType : (isBlank d || d == '<' || d == '[' || d == '(') = false := by
      rcases named with named | rfl
      · have unlike {e : Char} (other : isNameChar e = false) : d ≠ e := by
          rintro rfl
          rw [named] at other
          cases other
        have bracket : d ≠ '<' ∧ d ≠ '[' ∧ d ≠ '(' :=
          ⟨unlike (by decide), unlike (by decide), unlike (by decide)⟩
        simp [(visible_of_isNameChar named).1, bracket]
      · simp [(visible_ascii (c := ':') (by decide) (by decide)).1]
    rw [noType]
    exact read.bind (reads_pure _)
  · rename_i rest begins
    exact absurd (List.cons.inj begins).1 (head.ne (by decide) (by decide))
  · rename_i ended
    cases ended
  · exact read.bind (reads_pure _)

/-- How a predicate begins. -/
structure VerbHead (c : Char) : Prop where
  visible : Visible c
  notSemicolon : c ≠ ';'
  notEnd : c ≠ '.' ∧ c ≠ ']'

/-- No property ends where a predicate begins. -/
theorem verbHead_verbText (prefixes : PlainPrefixes declared) {iri : String}
    (plain : PlainIri iri.toList) (rest : List Char) :
    ∃ c more, (verbText declared (.iri iri)).toList ++ rest = c :: more ∧ VerbHead c := by
  have mark {c : Char} (ascii : 32 < c.toNat ∧ c.toNat < 0x80) (other : c ≠ '#' ∧ c ≠ ';')
      (notEnd : c ≠ '.' ∧ c ≠ ']') : VerbHead c :=
    ⟨visible_ascii ascii other.1, other.2, notEnd⟩
  unfold verbText
  split
  · exact ⟨'a', rest, rfl, mark (by decide) (by decide) (by decide)⟩
  rw [termText]
  by_cases nil : iri = rdf "nil"
  · rw [nil, iriText_nil]
    exact ⟨'(', _, rfl, mark (by decide) (by decide) (by decide)⟩
  · have form := iriForm_iriText prefixes plain nil
    generalize (iriText declared iri).toList = text at form ⊢
    cases form with
    | full => exact ⟨'<', _, rfl, mark (by decide) (by decide) (by decide)⟩
    | @short name ns part plain =>
      obtain ⟨c, more, begins, head⟩ := nameHead_of_plain plain (part ++ rest)
      exact ⟨c, more, by simpa using begins, head.visible, head.ne (by decide) (by decide),
        head.notNumber.2.2, head.ne (by decide) (by decide)⟩

/-- Every predicate that can be written is read again behind any blanks. -/
theorem reads_verb (prefixes : PlainPrefixes declared) (known : Knows declared done s) {iri : String}
    (plain : PlainIri iri.toList) (notNil : iri ≠ rdf "nil") {blanks : List Char}
    (blank : Blanks blanks) (rest : List Char) :
    Reads verb s (blanks ++ ((verbText declared (.iri iri)).toList ++ ' ' :: rest)) (.iri iri) s
      (' ' :: rest) := by
  have stop : Delimiter ' ' := .inl rfl
  unfold verbText
  split
  · rename_i type
    rw [eq_of_beq type, verb]
    have visible : Visible 'a' := visible_ascii (by decide) (by decide)
    refine (reads_skipSpace _ blank (spaceLength_visible visible _)).bind (reads_rest.bind ?_)
    exact (reads_take 1).bind (reads_pure _)
  · have form := iriForm_iriText prefixes plain notNil
    rw [← known.prefixes] at form
    rw [termText, ← known.prefixes]
    rcases reads_iri form known.base stop rest with ⟨more, begins, read⟩ | ⟨c, more, begins, head, read⟩
    · have visible : Visible '<' := visible_ascii (by decide) (by decide)
      rw [begins, verb]
      refine (reads_skipSpace _ blank (spaceLength_visible visible _)).bind (reads_rest.bind ?_)
      exact read.bind (reads_pure _)
    · rw [begins]
      exact verb_prefixedName blank head read

end RepoAudit.Rdf.Turtle.Reader
