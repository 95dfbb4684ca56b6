import RepoAudit.Proofs.Text.Names
import RepoAudit.Rdf.Turtle.Lexeme
import RepoAudit.Rdf.Turtle.Writer

/-!
# Lexemes read back

What the writer puts out for an IRI, a text, a name or a number is found again by the scan for it,
whatever stands behind it that ends it. A scan that succeeds has found something, and one that fails
says what is wrong with the text: that texts can be nested is none of its business.
-/

namespace RepoAudit.Rdf.Turtle

open Text

/-! ### Characters -/

/-- A character that no skipping of blanks and comments passes. -/
def Visible (c : Char) : Prop := isBlank c = false ∧ c ≠ '#'

theorem visible_ascii {c : Char} (ascii : 32 < c.toNat ∧ c.toNat < 0x80) (other : c ≠ '#') :
    Visible c := by
  refine ⟨?_, other⟩
  rw [← Bool.not_eq_true, isBlank_ascii ascii.2]
  omega

theorem isNameChar_blank {c : Char} (blank : isBlank c = true) : isNameChar c = false := by
  have letter := isAlphanumeric_of_isBlank blank
  have other : c ≠ '_' ∧ c ≠ '-' ∧ c ≠ '.' := by
    refine ⟨?_, ?_, ?_⟩ <;> rintro rfl <;> rw [isBlank_ascii (by decide)] at blank <;>
      revert blank <;> decide
  have dot : c ≠ '\u00b7' := by
    rintro rfl
    revert blank
    simp [isBlank, Stretch.hasChar, blanks_eq, Stretch.contains]
  simp [isNameChar, letter, other, dot]

theorem visible_of_isNameChar {c : Char} (name : isNameChar c = true) : Visible c := by
  constructor
  · cases blank : isBlank c with
    | false => rfl
    | true =>
      rw [isNameChar_blank blank] at name
      cases name
  · rintro rfl
    revert name
    decide

/-- The characters of plain names are characters of names. -/
theorem isNameChar_of_plain {c : Char} (plain : (c.isAlphanum || c == '_' || c == '-') = true) :
    isNameChar c = true := by
  rcases Bool.or_eq_true_iff.mp plain with word | hyphen
  · rcases Bool.or_eq_true_iff.mp word with letter | underscore
    · have ascii := toNat_of_isAlphanum letter
      simp [isNameChar, isAlphanumeric, ascii, letter]
    · simp [isNameChar, eq_of_beq underscore]
  · simp [isNameChar, eq_of_beq hyphen]

theorem spaceLength_visible {c : Char} (visible : Visible c) (rest : List Char) :
    spaceLength false (c :: rest) = 0 := by
  simp [spaceLength, visible.1, visible.2]

def Blanks (cs : List Char) : Prop := ∀ c ∈ cs, isBlank c = true

theorem blanks_of_spaces {cs : List Char} (spaces : (cs.all fun c => c == ' ' || c == '\n') = true) :
    Blanks cs := by
  intro c member
  rcases Bool.or_eq_true_iff.mp (List.all_eq_true.mp spaces c member) with space | line
  · rw [eq_of_beq space, isBlank_ascii (by decide)]
    decide
  · rw [eq_of_beq line, isBlank_ascii (by decide)]
    decide

/-- Blanks are skipped up to what is not blank. -/
theorem spaceLength_append {blanks rest : List Char} (blank : Blanks blanks)
    (ends : spaceLength false rest = 0) : spaceLength false (blanks ++ rest) = blanks.length := by
  induction blanks with
  | nil => exact ends
  | cons c more ih =>
    have first := blank c (.head _)
    rw [List.cons_append, spaceLength]
    simp [first, ih fun c member => blank c (.tail _ member)]

/-! ### IRIs -/

/-- An IRI that is written as it is. -/
def PlainIri (iri : List Char) : Prop :=
  ∀ c ∈ iri, c ≠ '>' ∧ c ≠ '\\' ∧ c ≠ ' ' ∧ c ≠ '\n'

instance (iri : List Char) : Decidable (PlainIri iri) :=
  List.decidableBAll _ iri

theorem scanIri_plain {iri : List Char} (plain : PlainIri iri) (rest : List Char) :
    scanIri (iri ++ '>' :: rest) = .found iri (iri.length + 1) := by
  induction iri with
  | nil => simp [scanIri]
  | cons c more ih =>
    obtain ⟨open_, slash, space, line⟩ := plain c (.head _)
    rw [List.cons_append, scanIri, ih fun c member => plain c (.tail _ member)]
    simp [open_, slash, space, line, Scan.prepend, Scan.found, Except.map, Nat.add_comm]

/-! ### Texts -/

/-- A backslash and a letter for a character are read as that character. -/
theorem scanString_escape {c d : Char} {text tail : List Char} {n : Nat}
    (read : ∀ rest, scanStringEscape (d :: rest) = .found c 1)
    (more : scanString '"' false tail = .found text n) :
    scanString '"' false ('\\' :: d :: tail) = .found (c :: text) (n + 2) := by
  rw [scanString, read]
  simp only [Scan.found, List.drop_succ_cons, List.drop_zero, more]
  simp [Scan.prepend, Except.map, Nat.add_comm]

theorem scanString_escaped (text rest : List Char) :
    scanString '"' false (text.flatMap Term.escapeChar ++ '"' :: rest) =
      .found text ((text.flatMap Term.escapeChar).length + 1) := by
  induction text with
  | nil => simp [scanString]
  | cons c more ih =>
    rw [List.flatMap_cons, List.append_assoc]
    by_cases slash : c = '\\'
    · subst slash
      exact scanString_escape (fun _ => rfl) ih
    by_cases quote : c = '"'
    · subst quote
      exact scanString_escape (fun _ => rfl) ih
    by_cases line : c = '\n'
    · subst line
      exact scanString_escape (fun _ => rfl) ih
    by_cases return_ : c = '\r'
    · subst return_
      exact scanString_escape (fun _ => rfl) ih
    by_cases tab : c = '\t'
    · subst tab
      exact scanString_escape (fun _ => rfl) ih
    have plain : Term.escapeChar c = [c] := by
      simp [Term.escapeChar, slash, quote, line, return_, tab]
    rw [plain, List.singleton_append, scanString, ih]
    simp [slash, quote, line, Scan.prepend, Scan.found, Except.map, Nat.add_comm]

/-- A written text begins with a quote only if it is empty. -/
theorem head_escaped {text : List Char} (filled : text ≠ []) :
    ∃ c more, text.flatMap Term.escapeChar = c :: more ∧ c ≠ '"' := by
  obtain ⟨c, rest, rfl⟩ := List.exists_cons_of_ne_nil filled
  rw [List.flatMap_cons]
  unfold Term.escapeChar
  split
  · exact ⟨_, _, rfl, by decide⟩
  split
  · exact ⟨_, _, rfl, by decide⟩
  rename_i other
  split
  · exact ⟨_, _, rfl, by decide⟩
  split
  · exact ⟨_, _, rfl, by decide⟩
  split
  · exact ⟨_, _, rfl, by decide⟩
  · exact ⟨_, _, rfl, by simpa using other⟩

theorem scanQuoted_escaped (text : List Char) {d : Char} (other : d ≠ '"') (rest : List Char) :
    scanQuoted ('"' :: (text.flatMap Term.escapeChar ++ '"' :: d :: rest)) =
      .found text ((text.flatMap Term.escapeChar).length + 2) := by
  have short : ['"', '"'].isPrefixOf (text.flatMap Term.escapeChar ++ '"' :: d :: rest) = false := by
    by_cases filled : text = []
    · subst filled
      simp [List.isPrefixOf, Ne.symm other]
    · obtain ⟨c, more, written, notQuote⟩ := head_escaped filled
      rw [written]
      simp [List.isPrefixOf, Ne.symm notQuote]
  rw [scanQuoted, short, scanString_escaped]
  simp only [Bool.false_eq_true, if_false, Scan.prepend, Scan.found, Except.map, id, Scan.mk.injEq,
    true_and]
  omega

/-! ### Names and tags -/

theorem takeWhile_stop {p : Char → Bool} {cs : List Char} {d : Char} (all : ∀ c ∈ cs, p c = true)
    (stop : p d = false) (rest : List Char) : (cs ++ d :: rest).takeWhile p = cs := by
  rw [List.takeWhile_append_of_pos all, List.takeWhile_cons_of_neg (by simp [stop]), List.append_nil]

/-- What stands behind a written term. -/
def Delimiter (d : Char) : Prop := d = ' ' ∨ d = ',' ∨ d = '\n'

theorem Delimiter.not_name {d : Char} (stop : Delimiter d) : isNameChar d = false := by
  rcases stop with rfl | rfl | rfl <;> decide

theorem plain_of_isPlainName {name : List Char} (plain : isPlainName name = true) :
    name ≠ [] ∧ (∀ c ∈ name, (c.isAlphanum || c == '_' || c == '-') = true) ∧
      name.head? ≠ some '-' := by
  simp only [isPlainName, Bool.and_eq_true, Bool.not_eq_true', List.isEmpty_eq_false_iff,
    List.all_eq_true, bne_iff_ne] at plain
  exact ⟨plain.1.1, plain.1.2, plain.2⟩

theorem scanLocal_cons {c : Char} (other : c ≠ '\\') (rest : List Char) :
    scanLocal (c :: rest) = if isNameChar c || c == ':' || c == '%'
      then (scanLocal rest).prepend 1 (c :: ·) else .found [] 0 := by
  rw [scanLocal.eq_def]
  simp [other]

theorem scanLocal_plain {name : List Char}
    (plain : ∀ c ∈ name, (c.isAlphanum || c == '_' || c == '-') = true) {d : Char}
    (stop : Delimiter d) (rest : List Char) :
    scanLocal (name ++ d :: rest) = .found name name.length := by
  induction name with
  | nil =>
    have slash : d ≠ '\\' := by rcases stop with rfl | rfl | rfl <;> decide
    have others : (d == ':' || d == '%') = false := by rcases stop with rfl | rfl | rfl <;> decide
    rw [List.nil_append, scanLocal_cons slash, stop.not_name, Bool.or_assoc, others]
    rfl
  | cons c more ih =>
    have named := isNameChar_of_plain (plain c (.head _))
    have slash : c ≠ '\\' := by
      rintro rfl
      revert named
      decide
    rw [List.cons_append, scanLocal_cons slash, ih fun c member => plain c (.tail _ member)]
    simp [named, Scan.prepend, Scan.found, Except.map, Nat.add_comm]

theorem trailingDots_eq_zero {name : List Char} (noDot : name.getLast? ≠ some '.') :
    trailingDots name = 0 := by
  rw [← List.head?_reverse] at noDot
  rw [trailingDots, List.length_eq_zero_iff]
  cases reversed : name.reverse with
  | nil => rfl
  | cons c rest =>
    rw [reversed] at noDot
    refine List.takeWhile_cons_of_neg fun dot => noDot ?_
    rw [eq_of_beq dot]
    rfl

theorem scanLang_tag {tag : List Char} (filled : tag ≠ [])
    (plain : ∀ c ∈ tag, (c.isAlphanum || c == '-') = true) {d : Char} (stop : Delimiter d)
    (rest : List Char) : scanLang (tag ++ d :: rest) = .found tag tag.length := by
  have ends : (d.isAlphanum || d == '-') = false := by rcases stop with rfl | rfl | rfl <;> decide
  rw [scanLang, takeWhile_stop plain ends]
  simp [filled]

/-- The characters of tags in lower case. -/
def isTagChar (c : Char) : Bool := c.isLower || c.isDigit || c == '-'

theorem isTagChar_spec {c : Char} (plain : isTagChar c = true) :
    (c.isAlphanum || c == '-') = true ∧ c.toNat < 0x80 ∧ c.toLower = c := by
  simp only [isTagChar, Bool.or_eq_true, beq_iff_eq] at plain
  rcases plain with (lower | digit) | rfl
  · have letter : c.isAlphanum = true := by simp [Char.isAlphanum, Char.isAlpha, lower]
    refine ⟨by simp [letter], toNat_of_isAlphanum letter, dif_neg fun upper => ?_⟩
    simp [Char.isLower, UInt32.le_iff_toNat_le] at lower upper
    omega
  · have letter : c.isAlphanum = true := by simp [Char.isAlphanum, digit]
    refine ⟨by simp [letter], toNat_of_isAlphanum letter, dif_neg fun upper => ?_⟩
    simp [Char.isDigit, UInt32.le_iff_toNat_le] at digit upper
    omega
  · decide

theorem toNat_of_tagChar {c : Char} (plain : (c.isAlphanum || c == '-') = true) :
    c.toNat < 0x80 := by
  rcases Bool.or_eq_true_iff.mp plain with letter | hyphen
  · exact toNat_of_isAlphanum letter
  · rw [eq_of_beq hyphen]
    decide

theorem isTagChar_toLower {c : Char} (plain : (c.isAlphanum || c == '-') = true) :
    isTagChar c.toLower = true := by
  have each : ∀ n < 0x80, ((Char.ofNat n).isAlphanum || Char.ofNat n == '-') = true →
      isTagChar (Char.ofNat n).toLower = true := by decide +kernel
  have found := each c.toNat (toNat_of_tagChar plain)
  rw [Char.ofNat_toNat] at found
  exact found plain

/-- Tags in lower case are kept as they are. -/
theorem lowered_tag {tag : String} (plain : ∀ c ∈ tag.toList, isTagChar c = true) :
    lowered tag = tag := by
  have ascii : ∀ c ∈ tag.toList, c.toNat < 0x80 := fun c member => (isTagChar_spec (plain c member)).2.1
  have kept : tag.toList.map Char.toLower = tag.toList.map id :=
    List.map_congr_left fun c member => (isTagChar_spec (plain c member)).2.2
  rw [lowered, lower, lowerFrom_ascii ascii, kept, List.map_id, String.ofList_toList]

/-- Lowering makes a tag of what the scan for tags finds. -/
theorem lowered_isTagChar {tag : List Char} (plain : ∀ c ∈ tag, (c.isAlphanum || c == '-') = true) :
    (lowered (String.ofList tag)).toList.length = tag.length ∧
      ∀ c ∈ (lowered (String.ofList tag)).toList, isTagChar c = true := by
  have ascii : ∀ c ∈ tag, c.toNat < 0x80 := fun c member => toNat_of_tagChar (plain c member)
  have text : (lowered (String.ofList tag)).toList = tag.map Char.toLower := by
    rw [lowered, lower, String.toList_ofList, String.toList_ofList, lowerFrom_ascii ascii]
  rw [text]
  refine ⟨List.length_map .., fun c member => ?_⟩
  obtain ⟨d, listed, rfl⟩ := List.mem_map.mp member
  exact isTagChar_toLower (plain d listed)

/-! ### Keywords -/

theorem startsWithKeyword_other {k c : Char} (other : c.toLower ≠ k) (keyword rest : List Char) :
    startsWithKeyword (k :: keyword) (c :: rest) = false := by
  simp [startsWithKeyword, other]

/-- A name before a colon is not a keyword. -/
theorem startsWithKeyword_name {name keyword : List Char}
    (named : ∀ c ∈ name, isNameChar c = true) (word : ':' ∉ keyword) (rest : List Char) :
    startsWithKeyword keyword (name ++ ':' :: rest) = false := by
  rw [startsWithKeyword, Bool.and_eq_false_iff]
  by_cases longer : keyword.length ≤ name.length
  · right
    rw [List.drop_append_of_le_length longer]
    cases left : name.drop keyword.length with
    | nil => simp
    | cons c more =>
      have member : c ∈ name := List.mem_of_mem_drop (left ▸ List.mem_cons_self)
      simp [named c member]
  · left
    rw [← Bool.not_eq_true, beq_iff_eq]
    intro same
    refine word (same ▸ List.mem_map.mpr ⟨':', ?_, by decide⟩)
    obtain ⟨n, length⟩ := Nat.exists_eq_add_of_lt (Nat.lt_of_not_le longer)
    rw [length, Nat.add_assoc, List.take_length_add_append]
    simp

theorem startsWithKeyword_stop {keyword : List Char} (lower : keyword.map Char.toLower = keyword)
    {d : Char} (stop : Delimiter d) (rest : List Char) :
    startsWithKeyword keyword (keyword ++ d :: rest) = true := by
  have colon : d ≠ ':' := by rcases stop with rfl | rfl | rfl <;> decide
  simp [startsWithKeyword, lower, stop.not_name, colon]

/-! ### Numbers -/

theorem dropSign_cons {c : Char} (notPlus : c ≠ '+') (notMinus : c ≠ '-') (more : List Char) :
    dropSign (c :: more) = c :: more := by
  rw [dropSign.eq_def]
  simp [notPlus, notMinus]

theorem splitSign_append {cs : List Char} (filled : dropSign cs ≠ []) (rest : List Char) :
    ∃ sign, sign ++ dropSign cs = cs ∧ splitSign (cs ++ rest) = (sign, dropSign cs ++ rest) := by
  cases cs with
  | nil => exact absurd rfl filled
  | cons c more =>
    by_cases plus : c = '+'
    · subst plus
      exact ⟨['+'], rfl, rfl⟩
    by_cases minus : c = '-'
    · subst minus
      exact ⟨['-'], rfl, rfl⟩
    have unsigned := dropSign_cons plus minus more
    refine ⟨[], unsigned, ?_⟩
    rw [unsigned, List.cons_append, splitSign.eq_def]
    simp [plus, minus]

/-- The characters that numbers begin with. -/
def isNumberHead (c : Char) : Bool := c.isDigit || c == '+' || c == '-' || c == '.'

theorem visible_of_isNumberHead {c : Char} (head : isNumberHead c = true) : Visible c := by
  simp only [isNumberHead, Bool.or_eq_true, beq_iff_eq] at head
  rcases head with ((digit | rfl) | rfl) | rfl
  · exact visible_of_isNameChar (isNameChar_of_plain (by simp [Char.isAlphanum, digit]))
  all_goals exact visible_ascii (by decide) (by decide)

theorem numberHead_of_dropSign {cs : List Char} {c : Char} {more : List Char}
    (unsigned : dropSign cs = c :: more) (head : isNumberHead c = true) :
    ∃ d rest, cs = d :: rest ∧ isNumberHead d = true := by
  cases cs with
  | nil => cases unsigned
  | cons d rest =>
    refine ⟨d, rest, rfl, ?_⟩
    by_cases plus : d = '+'
    · rw [plus]
      decide
    by_cases minus : d = '-'
    · rw [minus]
      decide
    rw [dropSign_cons plus minus] at unsigned
    rwa [(List.cons.inj unsigned).1]

theorem numberHead_integer {s : String} (written : readsAsInteger s = true) :
    ∃ c more, s.toList = c :: more ∧ isNumberHead c = true := by
  simp only [readsAsInteger, Bool.and_eq_true, Bool.not_eq_true', List.isEmpty_eq_false_iff,
    List.all_eq_true] at written
  obtain ⟨filled, digits⟩ := written
  obtain ⟨c, more, unsigned⟩ := List.exists_cons_of_ne_nil filled
  have digit : c.isDigit = true := digits c (unsigned ▸ List.mem_cons_self)
  exact numberHead_of_dropSign unsigned (by simp [isNumberHead, digit])

theorem numberHead_decimal {s : String} (written : readsAsDecimal s = true) :
    ∃ c more, s.toList = c :: more ∧ isNumberHead c = true := by
  unfold readsAsDecimal at written
  split at written
  · rename_i whole fraction cut
    simp only [Bool.and_eq_true, List.all_eq_true] at written
    have parts := eq_of_cut? cut
    cases whole with
    | nil => exact numberHead_of_dropSign parts (by decide)
    | cons c more =>
      have digit : c.isDigit = true := written.1.1 c (.head _)
      exact numberHead_of_dropSign parts (by simp [isNumberHead, digit])
  · cases written

/-- A number ends before a delimiter, and has no exponent there. -/
theorem scanNumber_parts {sign whole fraction after : List Char} {cs : List Char} {d : Char}
    (stop : Delimiter d) {rest : List Char} (signed : splitSign cs = (sign, whole ++ after))
    (digits : ∀ c ∈ whole, c.isDigit = true) (ends : ∀ c ∈ after.head?, c.isDigit = false)
    (fractioned : splitFraction after = (fraction, d :: rest))
    (filled : (whole.isEmpty && fraction.isEmpty) = false) :
    scanNumber cs = .found (sign ++ whole ++ fraction,
      if fraction.isEmpty then "integer" else "decimal") (sign ++ whole ++ fraction).length := by
  have taken : (whole ++ after).takeWhile Char.isDigit = whole := by
    rw [List.takeWhile_append_of_pos digits]
    cases after with
    | nil => simp
    | cons c more => rw [List.takeWhile_cons_of_neg (by simp [ends c rfl]), List.append_nil]
  have dropped : (whole ++ after).dropWhile Char.isDigit = after := by
    rw [List.dropWhile_append_of_pos digits]
    cases after with
    | nil => rfl
    | cons c more => rw [List.dropWhile_cons_of_neg (by simp [ends c rfl])]
  have exponent : (d == 'e' || d == 'E') = false := by rcases stop with rfl | rfl | rfl <;> decide
  simp only [scanNumber, signed, taken, dropped, fractioned, filled, Bool.false_eq_true, if_false,
    exponent]

theorem scanNumber_integer {s : String} (written : readsAsInteger s = true) {d : Char}
    (stop : Delimiter d) (rest : List Char) :
    scanNumber (s.toList ++ d :: rest) = .found (s.toList, "integer") s.toList.length := by
  simp only [readsAsInteger, Bool.and_eq_true, Bool.not_eq_true', List.isEmpty_eq_false_iff,
    List.all_eq_true] at written
  obtain ⟨filled, digits⟩ := written
  obtain ⟨sign, signed, split⟩ := splitSign_append filled (d :: rest)
  have ends : ∀ c ∈ (d :: rest).head?, c.isDigit = false := by
    rintro c ⟨rfl⟩
    rcases stop with rfl | rfl | rfl <;> decide
  have unfractioned : splitFraction (d :: rest) = ([], d :: rest) := by
    rcases stop with rfl | rfl | rfl <;> rfl
  rw [scanNumber_parts stop split digits ends unfractioned (by simp [filled]), List.append_nil,
    signed]
  rfl

theorem scanNumber_decimal {s : String} (written : readsAsDecimal s = true) {d : Char}
    (stop : Delimiter d) (rest : List Char) :
    scanNumber (s.toList ++ d :: rest) = .found (s.toList, "decimal") s.toList.length := by
  unfold readsAsDecimal at written
  split at written
  · rename_i whole fraction cut
    simp only [Bool.and_eq_true, Bool.not_eq_true', List.isEmpty_eq_false_iff,
      List.all_eq_true] at written
    obtain ⟨⟨digits, filled⟩, digits'⟩ := written
    have parts := eq_of_cut? cut
    have unsigned : dropSign s.toList ≠ [] := by simp [parts]
    obtain ⟨sign, signed, split⟩ := splitSign_append unsigned (d :: rest)
    rw [parts, List.append_assoc, List.cons_append] at split
    have stops : d.isDigit = false := by rcases stop with rfl | rfl | rfl <;> decide
    have fractioned : splitFraction ('.' :: (fraction ++ d :: rest)) =
        ('.' :: fraction, d :: rest) := by
      have dropped : (fraction ++ d :: rest).dropWhile Char.isDigit = d :: rest := by
        rw [List.dropWhile_append_of_pos digits', List.dropWhile_cons_of_neg (by simp [stops])]
      simp [splitFraction, takeWhile_stop digits' stops, dropped, filled]
    rw [scanNumber_parts stop split digits (by rintro c ⟨rfl⟩; rfl) fractioned (by simp),
      List.append_assoc, ← parts, signed]
    rfl
  · cases written

theorem Scan.exists_of_prepend {α : Type} {n : Nat} {f : α → α} {s : Scan α} {a : α}
    (found : (s.prepend n f).result = .ok a) : ∃ b, s.result = .ok b ∧ f b = a := by
  cases result : s.result with
  | error e =>
    rw [Scan.prepend, result] at found
    cases found
  | ok b =>
    rw [Scan.prepend, result] at found
    exact ⟨b, rfl, Except.ok.inj found⟩

/-! ### Why a scan fails -/

/-- A scan does not fail because of nesting. -/
def Scan.Shallow {α : Type} (s : Scan α) : Prop := s.result ≠ .error .tooDeep

theorem Scan.Shallow.prepend {α : Type} {s : Scan α} (shallow : s.Shallow) (n : Nat) (f : α → α) :
    (s.prepend n f).Shallow := by
  intro same
  cases result : s.result with
  | ok a =>
    rw [Scan.prepend, result] at same
    cases same
  | error e =>
    rw [Scan.prepend, result] at same
    exact shallow (result.trans (congrArg Except.error (Except.error.inj same)))

theorem Scan.Shallow.failed {α β : Type} {s : Scan α} (shallow : s.Shallow) {e : SyntaxError}
    (failed : s.result = .error e) (n : Nat) : (Scan.failed e n : Scan β).Shallow := by
  rintro ⟨⟩
  exact shallow failed

theorem shallow_scanHex (v : Nat) (n : Nat) (cs : List Char) : (scanHex v n cs).Shallow := by
  fun_induction scanHex v n cs with
  | case1 | case2 | case4 => nofun
  | case3 _ _ _ _ _ _ ih => exact ih.prepend 1 id

theorem shallow_scanHexChar (n : Nat) (cs : List Char) : (scanHexChar n cs).Shallow := by
  have shallow := shallow_scanHex 0 n cs
  unfold scanHexChar
  simp only
  split
  · split <;> nofun
  next e failed => exact shallow.failed failed _

theorem shallow_scanIriEscape (cs : List Char) : (scanIriEscape cs).Shallow := by
  fun_cases scanIriEscape cs with
  | case1 | case2 => exact (shallow_scanHexChar _ _).prepend 1 id
  | case3 | case4 => nofun

theorem shallow_scanStringEscape (cs : List Char) : (scanStringEscape cs).Shallow := by
  fun_cases scanStringEscape cs with
  | case1 | case2 => exact (shallow_scanHexChar _ _).prepend 1 id
  | case3 | case4 | case5 => nofun

theorem shallow_scanIri (cs : List Char) : (scanIri cs).Shallow := by
  fun_induction scanIri cs with
  | case1 | case2 | case5 => nofun
  | case3 _ _ _ _ _ _ _ ih => exact ih.prepend _ _
  | case4 c rest _ _ _ _ failed => exact (shallow_scanIriEscape rest).failed failed _
  | case6 _ _ _ _ _ ih => exact ih.prepend _ _

theorem shallow_scanString (quote : Char) (long : Bool) (cs : List Char) :
    (scanString quote long cs).Shallow := by
  fun_induction scanString quote long cs with
  | case1 | case2 | case3 | case4 => nofun
  | case5 _ _ _ _ _ _ ih => exact ih.prepend _ _
  | case6 _ _ _ _ _ _ _ _ ih => exact ih.prepend _ _
  | case7 c rest _ _ _ _ _ failed => exact (shallow_scanStringEscape rest).failed failed _
  | case8 _ _ _ _ _ ih => exact ih.prepend _ _

theorem shallow_scanQuoted (cs : List Char) : (scanQuoted cs).Shallow := by
  fun_cases scanQuoted cs with
  | case1 => nofun
  | case2 | case3 => exact (shallow_scanString _ _ _).prepend _ _

theorem shallow_scanLocal (cs : List Char) : (scanLocal cs).Shallow := by
  fun_induction scanLocal cs with
  | case1 | case3 | case5 => nofun
  | case2 c _ ih => exact ih.prepend _ _
  | case4 c _ _ _ _ ih => exact ih.prepend _ _

theorem shallow_scanLang (cs : List Char) : (scanLang cs).Shallow := by
  unfold scanLang
  simp only
  split <;> nofun

theorem shallow_scanNumber (cs : List Char) : (scanNumber cs).Shallow := by
  fun_cases scanNumber cs
  all_goals nofun

/-! ### What a scan takes -/

variable {cs : List Char}

theorem scanQuoted_takes {text : List Char} (found : (scanQuoted cs).result = .ok text) :
    cs ≠ [] ∧ 1 ≤ (scanQuoted cs).taken := by
  fun_cases scanQuoted cs with
  | case1 => cases found
  | case2 | case3 => exact ⟨nofun, by simp only [Scan.prepend]; omega⟩

theorem length_mantissa {sign whole fraction : List Char}
    (filled : ¬ (whole.isEmpty && fraction.isEmpty) = true) :
    1 ≤ (sign ++ whole ++ fraction).length := by
  cases whole with
  | cons => simp only [List.length_append, List.length_cons]; omega
  | nil =>
    cases fraction with
    | cons => simp only [List.length_append, List.length_cons]; omega
    | nil => exact absurd rfl filled

theorem scanNumber_takes {number : List Char × String} :
    (scanNumber cs).result = .ok number → cs ≠ [] ∧ 1 ≤ (scanNumber cs).taken := by
  intro found
  refine ⟨?_, ?_⟩
  · rintro rfl
    cases found
  revert found
  fun_cases scanNumber cs with
  | case1 | case2 => nofun
  | case3 => exact fun _ => List.length_pos_iff.mpr (List.append_ne_nil_of_right_ne_nil _ nofun)
  | case4 _ _ _ _ _ _ filled | case5 _ _ _ _ _ _ filled => exact fun _ => length_mantissa filled

end RepoAudit.Rdf.Turtle
