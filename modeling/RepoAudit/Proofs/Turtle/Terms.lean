import RepoAudit.Proofs.Turtle.Steps

/-!
# Terms read back

Which terms survive being written, the forms in which they are written, and the reading of each
form. Blank nodes are left for later, since what they read as depends on what was read before.
-/

namespace RepoAudit.Rdf.Turtle

open Text

/-! ### Terms that can be written -/

/-- A prefix that is not taken for the beginning of a blank node or a number. -/
structure PlainPrefix (name : List Char) : Prop where
  named : ∀ c ∈ name, isNameChar c = true
  notBlank : name ≠ ['_']
  notNumber : ∀ c ∈ name.head?, c.isDigit = false ∧ c ≠ '-' ∧ c ≠ '.'

/-- Prefixes that can be declared and used. -/
def PlainPrefixes (prefixes : SortedMap String String) : Prop :=
  ∀ name iri, prefixes.get? name = some iri → PlainPrefix name.toList ∧ PlainIri iri.toList

theorem plainPrefix_of_isAlpha {name : List Char} (letters : ∀ c ∈ name, c.isAlpha = true) :
    PlainPrefix name where
  named c member := isNameChar_of_plain (by simp [Char.isAlphanum, letters c member])
  notBlank := by
    rintro rfl
    have letter := letters '_' (.head _)
    revert letter
    decide
  notNumber c first := by
    have letter := letters c (List.mem_of_head? first)
    refine ⟨?_, ?_, ?_⟩
    · simp only [Char.isAlpha, Char.isUpper, Char.isLower, Char.isDigit] at letter ⊢
      grind
    · rintro rfl
      revert letter
      decide
    · rintro rfl
      revert letter
      decide

/-- The prefixes of reports can be declared and used. -/
theorem plain_standardPrefixes : ∀ pre ∈ standardPrefixes,
    PlainPrefix pre.1.toList ∧ PlainIri pre.2.toList := by
  have alpha : ∀ pre ∈ standardPrefixes, pre.1.toList.all Char.isAlpha = true ∧
      PlainIri pre.2.toList := by
    simp only [standardPrefixes, List.forall_mem_cons]
    refine ⟨?_, ?_, ?_, ?_, ?_, ?_, ?_, by simp⟩ <;> exact ⟨by decide, by decide⟩
  intro pre listed
  obtain ⟨letters, plain⟩ := alpha pre listed
  exact ⟨plainPrefix_of_isAlpha (List.all_eq_true.mp letters), plain⟩

structure PlainLabel (label : List Char) : Prop where
  filled : label ≠ []
  named : ∀ c ∈ label, isNameChar c = true
  noDot : label.getLast? ≠ some '.'

structure PlainLiteral (l : Literal) : Prop where
  datatype : PlainIri l.datatype.toList
  notNil : l.datatype ≠ rdf "nil"
  tagged : ∀ tag ∈ l.lang,
    l.datatype = rdf "langString" ∧ tag.toList ≠ [] ∧ ∀ c ∈ tag.toList, isTagChar c = true

def PlainTerm : Term → Prop
  | .iri iri => PlainIri iri.toList
  | .blank label => PlainLabel label.toList
  | .literal l => PlainLiteral l

/-! ### IRIs in brackets and with prefixes -/

/-- The forms in which an IRI is written, except for the empty collection. -/
inductive IriForm (prefixes : SortedMap String String) (iri : String) : List Char → Prop
  | full : PlainIri iri.toList → IriForm prefixes iri ('<' :: (iri.toList ++ ['>']))
  | short {name ns part : List Char} :
      PlainPrefix name → prefixes.get? (String.ofList name) = some (String.ofList ns) →
      isPlainName part = true → iri.toList = ns ++ part →
      IriForm prefixes iri (name ++ ':' :: part)

theorem abbreviated?_spec {iri : List Char} {pre : String × String} {text : String}
    (found : abbreviated? iri pre = some text) : ∃ part, isPlainName part = true ∧
      iri = pre.2.toList ++ part ∧ text.toList = pre.1.toList ++ ':' :: part := by
  obtain ⟨part, begins, chosen⟩ := Option.bind_eq_some_iff.mp found
  split at chosen
  · rename_i plain
    obtain rfl := Option.some.inj chosen
    exact ⟨part, plain, eq_of_dropStart? begins, by simp⟩
  · cases chosen

theorem iriForm_iriText {prefixes : SortedMap String String} (declared : PlainPrefixes prefixes)
    {iri : String} (plain : PlainIri iri.toList) (notNil : iri ≠ rdf "nil") :
    IriForm prefixes iri (iriText prefixes iri).toList := by
  rw [iriText, if_neg (by simpa using notNil)]
  cases found : prefixes.entries.findSome? (abbreviated? iri.toList) with
  | none =>
    have full : IriForm prefixes iri ('<' :: (iri.toList ++ ['>'])) := .full plain
    simpa using full
  | some text =>
    obtain ⟨⟨name, ns⟩, member, short⟩ := List.exists_of_findSome?_eq_some found
    obtain ⟨part, plain, same, written⟩ := abbreviated?_spec short
    have bound := (SortedMap.mem_entries prefixes).mp member
    rw [Option.getD_some, written]
    exact .short (declared name ns bound).1 (by simpa using bound) plain same

theorem iriText_nil (prefixes : SortedMap String String) : iriText prefixes (rdf "nil") = "()" := by
  simp [iriText]

/-- How a name with a prefix begins. -/
structure NameHead (c : Char) (more : List Char) : Prop where
  noKeyword : ∀ keyword, ':' ∉ keyword → startsWithKeyword keyword (c :: more) = false
  char : isNameChar c = true ∨ c = ':'
  next : c = ':' ∨ ∀ e ∈ more.head?, isNameChar e = true ∨ e = ':'
  notBlank : c = '_' → more.head? ≠ some ':'
  notNumber : c.isDigit = false ∧ c ≠ '-' ∧ c ≠ '.'

theorem nameHead_of_plain {name : List Char} (plain : PlainPrefix name) (part : List Char) :
    ∃ c more, name ++ ':' :: part = c :: more ∧ NameHead c more := by
  have noKeyword (keyword : List Char) (word : ':' ∉ keyword) :=
    startsWithKeyword_name plain.named word part
  cases name with
  | nil => exact ⟨':', part, rfl, noKeyword, .inr rfl, .inl rfl, (absurd · (by decide)), by decide⟩
  | cons c rest =>
    refine ⟨c, _, rfl, noKeyword, .inl (plain.named c (.head _)), .inr ?_, ?_, plain.notNumber c rfl⟩
    · cases rest with
      | nil =>
        rintro e ⟨rfl⟩
        exact .inr rfl
      | cons e others =>
        rintro _ ⟨rfl⟩
        exact .inl (plain.named e (.tail _ (.head _)))
    · rintro rfl
      cases rest with
      | nil => exact absurd rfl plain.notBlank
      | cons e others =>
        rintro ⟨rfl⟩
        have named := plain.named ':' (.tail _ (.head _))
        revert named
        decide

theorem NameHead.ne {c : Char} {more : List Char} (head : NameHead c more) {d : Char}
    (other : isNameChar d = false) (notColon : d ≠ ':') : c ≠ d := by
  rintro rfl
  rcases head.char with named | colon
  · rw [named] at other
    cases other
  · exact notColon colon

theorem NameHead.visible {c : Char} {more : List Char} (head : NameHead c more) : Visible c := by
  rcases head.char with named | rfl
  · exact visible_of_isNameChar named
  · exact visible_ascii (by decide) (by decide)

namespace Reader

variable {s : State} {left : List Char}

theorem reads_iriRef {iri : List Char} (plain : PlainIri iri) (base : s.base = none) :
    Reads iriRef s ('<' :: (iri ++ '>' :: left)) (String.ofList iri) s left := by
  refine (reads_expect (visible_ascii (by decide) (by decide))).bind ?_
  have passed : iri ++ '>' :: left = iri ++ ['>'] ++ left := by simp
  rw [passed]
  refine Reads.bind (reads_scan (a := iri) ?_) (reads_know fun c => ?_)
  · rw [← passed, scanIri_plain plain]
    simp
  · have known : (s.at c).base = none := base
    rw [known]
    exact reads_pure _

theorem reads_prefixedName {name part : List Char} {iri : String}
    (named : ∀ c ∈ name, isNameChar c = true) (plain : isPlainName part = true)
    (bound : s.prefixes.get? (String.ofList name) = some iri) {d : Char} (stop : Delimiter d)
    (rest : List Char) :
    Reads prefixedName s (name ++ ':' :: (part ++ d :: rest)) (iri ++ String.ofList part) s
      (d :: rest) := by
  obtain ⟨_, plain, _⟩ := plain_of_isPlainName plain
  have colon : isNameChar ':' = false := by decide
  have noDots : trailingDots part = 0 := trailingDots_eq_zero fun dot => by
    have last := plain '.' (List.mem_of_getLast? dot)
    revert last
    decide
  refine reads_rest.bind ?_
  simp only [takeWhile_stop named colon, List.drop_left]
  refine (reads_take_append name).bind ((reads_take 1).bind ?_)
  refine (reads_scan (scanLocal_plain plain stop rest)).bind ?_
  rw [noDots]
  refine reads_giveBack_zero.bind (reads_know fun c => ?_)
  have known : (s.at c).prefixes.get? (String.ofList name) = some iri := bound
  simp only [known, Nat.sub_zero, List.take_length]
  exact reads_pure _

/-- An IRI is read by the step that its first character asks for. -/
theorem reads_iri {iri : String} {text : List Char} (form : IriForm s.prefixes iri text)
    (base : s.base = none) {d : Char} (stop : Delimiter d) (rest : List Char) :
    (∃ more, text ++ d :: rest = '<' :: more ∧ Reads iriRef s ('<' :: more) iri s (d :: rest)) ∨
    ∃ c more, text ++ d :: rest = c :: more ∧ NameHead c more ∧
      Reads prefixedName s (c :: more) iri s (d :: rest) := by
  cases form with
  | full plain =>
    have found : Reads iriRef s ('<' :: (iri.toList ++ '>' :: d :: rest)) _ s (d :: rest) :=
      reads_iriRef plain base
    rw [String.ofList_toList] at found
    exact .inl ⟨_, by simp, found⟩
  | @short name ns part plain bound plainPart same =>
    have found := reads_prefixedName plain.named plainPart bound stop rest
    rw [← String.ofList_append, ← same, String.ofList_toList] at found
    obtain ⟨c, more, begins, head⟩ := nameHead_of_plain plain (part ++ d :: rest)
    rw [begins] at found
    exact .inr ⟨c, more, by simpa using begins, head, found⟩

/-! ### Literals -/

theorem reads_quoted (lexical : String) {d : Char} (other : d ≠ '"') {rest : List Char} :
    Reads (scan scanQuoted) s ((Term.quoted lexical).toList ++ d :: rest) lexical.toList s
      (d :: rest) := by
  refine reads_scan ?_
  simpa [Term.quoted, Term.escaped] using scanQuoted_escaped lexical.toList other rest

theorem literal_string (lexical : String) {d : Char} (stop : Delimiter d) {rest : List Char} :
    Reads literal s ((Term.quoted lexical).toList ++ d :: rest) (.string lexical) s (d :: rest) := by
  have other : d ≠ '"' := by rcases stop with rfl | rfl | rfl <;> decide
  refine (reads_quoted lexical other).bind (reads_rest.bind ?_)
  rw [String.ofList_toList]
  rcases stop with rfl | rfl | rfl <;> exact reads_pure _

theorem literal_langString (lexical : String) {tag : String} (filled : tag.toList ≠ [])
    (plain : ∀ c ∈ tag.toList, isTagChar c = true) {d : Char} (stop : Delimiter d)
    {rest : List Char} :
    Reads literal s ((Term.quoted lexical).toList ++ '@' :: (tag.toList ++ d :: rest))
      (.literal ⟨lexical, rdf "langString", some tag⟩) s (d :: rest) := by
  refine (reads_quoted lexical (by decide)).bind (reads_rest.bind ((reads_take 1).bind ?_))
  have found := scanLang_tag filled (fun c member => (isTagChar_spec (plain c member)).1) stop rest
  refine (reads_scan found).bind ?_
  rw [String.ofList_toList, String.ofList_toList, Term.langString, lowered_tag plain]
  exact reads_pure _

theorem literal_typed (lexical : String) {datatype : String} {text : List Char}
    (form : IriForm s.prefixes datatype text) (base : s.base = none) {d : Char} (stop : Delimiter d)
    {rest : List Char} :
    Reads literal s ((Term.quoted lexical).toList ++ '^' :: '^' :: (text ++ d :: rest))
      (.typed lexical datatype) s (d :: rest) := by
  refine (reads_quoted lexical (by decide)).bind (reads_rest.bind ((reads_take 2).bind ?_))
  refine reads_peek.bind ?_
  simp only [List.drop_succ_cons, List.drop_zero, String.ofList_toList]
  rcases reads_iri form base stop rest with ⟨more, begins, found⟩ | ⟨c, more, begins, head, found⟩
  · rw [begins, List.head?_cons, if_pos rfl]
    exact found.bind (reads_pure _)
  · have other : c ≠ '<' := head.ne (by decide) (by decide)
    rw [begins, List.head?_cons, if_neg (by simpa using other)]
    exact found.bind (reads_pure _)

theorem reads_number {text : List Char} {datatype : String} {rest : List Char}
    (found : scanNumber (text ++ rest) = .found (text, datatype) text.length) :
    Reads number s (text ++ rest) (.typed (String.ofList text) (xsd datatype)) s rest :=
  (reads_scan found).bind (reads_pure _)

end Reader
end RepoAudit.Rdf.Turtle
