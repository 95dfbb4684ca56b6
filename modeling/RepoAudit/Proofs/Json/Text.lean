import RepoAudit.Proofs.Json.Numerals

/-!
# Values read back

Every value that is written over several lines is read as one document, whatever its strings hold.
-/

namespace RepoAudit.Json

/-! ### Strings -/

/-- How a character of a string is written: as itself or by a short escape, or else, if it is
another control character, by its number. -/
def pieceOf (c : Char) : Piece :=
  if c.toNat < 0x20 ∧ c ∉ ['\n', '\r', '\t', '\x08', '\x0c'] then .unit c.toNat else .char c

def piecesOf (s : String) : List Piece := s.toList.map pieceOf

theorem hexDigit?_hexDigit : ∀ n < 16, Text.hexDigit? (hexDigit n) = some n := by decide

theorem pieces?_unit {n : Nat} (small : n < 0x20) (rest : List Char) :
    pieces? ('\\' :: 'u' :: '0' :: '0' :: hexDigit (n / 16) :: hexDigit (n % 16) :: rest) =
      (pieces? rest).map fun (ps, rest) => (.unit n :: ps, rest) := by
  have zero : Text.hexDigit? '0' = some 0 := rfl
  have high := hexDigit?_hexDigit (n / 16) (by omega)
  have low := hexDigit?_hexDigit (n % 16) (by omega)
  have value : n / 16 * 16 + n % 16 = n := by omega
  rw [pieces?]
  simp only [hexUnit?, zero, high, low, value, Option.bind_eq_bind, Option.bind_some, Nat.zero_mul,
    Nat.zero_add]
  cases pieces? rest <;> rfl

theorem pieces?_short {c d : Char} (short : shortEscape? d = some c) (rest : List Char) :
    pieces? ('\\' :: d :: rest) = (pieces? rest).map fun (ps, rest) => (.char c :: ps, rest) := by
  have other : d ≠ 'u' := by
    rintro rfl
    cases short
  rw [pieces?]
  · simp only [short, Option.bind_eq_bind, Option.bind_some]
    cases pieces? rest <;> rfl
  · exact fun _ _ _ _ _ same => absurd same other

theorem pieces?_char {c : Char} (visible : ¬ c.toNat < 0x20) (noSlash : c ≠ '\\') (noQuote : c ≠ '"')
    (rest : List Char) :
    pieces? (c :: rest) = (pieces? rest).map fun (ps, rest) => (.char c :: ps, rest) := by
  rw [pieces?]
  · simp [visible, noSlash]
  · exact noQuote
  · exact fun _ _ _ _ _ same => absurd same noSlash
  · exact fun _ _ same => absurd same noSlash

/-- An escaped character is read as one piece. -/
theorem pieces?_escapeChar (c : Char) (rest : List Char) :
    pieces? (escapeChar c ++ rest) =
      (pieces? rest).map fun (ps, rest) => (pieceOf c :: ps, rest) := by
  by_cases quote : c = '"'
  · subst quote
    exact pieces?_short rfl rest
  by_cases slash : c = '\\'
  · subst slash
    exact pieces?_short rfl rest
  by_cases line : c = '\n'
  · subst line
    exact pieces?_short rfl rest
  by_cases return_ : c = '\r'
  · subst return_
    exact pieces?_short rfl rest
  by_cases tab : c = '\t'
  · subst tab
    exact pieces?_short rfl rest
  by_cases back : c = '\x08'
  · subst back
    exact pieces?_short rfl rest
  by_cases feed : c = '\x0c'
  · subst feed
    exact pieces?_short rfl rest
  by_cases control : c.toNat < 0x20
  · have unit : pieceOf c = .unit c.toNat := by
      simp [pieceOf, control, line, return_, tab, back, feed]
    rw [unit, ← pieces?_unit control rest]
    simp [escapeChar, quote, slash, line, return_, tab, back, feed, control]
  · have char : pieceOf c = .char c := by simp [pieceOf, control]
    rw [char, ← pieces?_char control slash quote rest]
    simp [escapeChar, quote, slash, line, return_, tab, back, feed, control]

theorem pieces?_escaped (cs rest : List Char) :
    pieces? (cs.flatMap escapeChar ++ '"' :: rest) = some (cs.map pieceOf, rest) := by
  induction cs with
  | nil => simp [pieces?]
  | cons c more ih =>
    rw [List.flatMap_cons, List.append_assoc, pieces?_escapeChar, ih]
    rfl

theorem characters?_unit {n : Nat} (small : n < 0x20) (ps : List Piece) :
    characters? (.unit n :: ps) = (characters? ps).map (Char.ofNat n :: ·) := by
  have high : isHighSurrogate n = false := by
    simp only [isHighSurrogate, Bool.and_eq_false_iff, decide_eq_false_iff_not]
    omega
  have low : isLowSurrogate n = false := by
    simp only [isLowSurrogate, Bool.and_eq_false_iff, decide_eq_false_iff_not]
    omega
  cases ps with
  | nil => simp [characters?, high, low]
  | cons p rest => cases p <;> simp [characters?, high, low]

/-- The pieces of a string stand for its characters. -/
theorem characters?_pieceOf (cs : List Char) : characters? (cs.map pieceOf) = some cs := by
  induction cs with
  | nil => simp [characters?]
  | cons c more ih =>
    rw [List.map_cons, pieceOf]
    split
    · rename_i control
      rw [characters?_unit control.1, ih, Char.ofNat_toNat]
      rfl
    · rw [characters?, ih]
      rfl

/-! ### What is read of a value -/

/-- What the text of a number is read as; one that is not finite is written as `null`. -/
def floatDocument (x : Float) : Document :=
  match numeral? (floatText x) with
  | some (n, _) => .numeral n
  | none => .null

mutual

/-- The document that the text of a value is read as. -/
def written : Json → Document
  | .null => .null
  | .bool b => .bool b
  | .int n => .numeral (intNumeral n)
  | .float x => floatDocument x
  | .string s => .string (piecesOf s)
  | .array items => .array (writtenItems items)
  | .object members => .object (writtenMembers members)

def writtenItems : List Json → List Document
  | [] => []
  | v :: rest => v.written :: writtenItems rest

def writtenMembers : List (String × Json) → List (List Piece × Document)
  | [] => []
  | (name, v) :: rest => (piecesOf name, v.written) :: writtenMembers rest

end

theorem writtenItems_eq (items : List Json) : writtenItems items = items.map written := by
  induction items with
  | nil => simp [writtenItems]
  | cons v rest ih => rw [writtenItems, ih, List.map_cons]

theorem writtenMembers_eq (members : List (String × Json)) :
    writtenMembers members = members.map fun m => (piecesOf m.1, m.2.written) := by
  induction members with
  | nil => simp [writtenMembers]
  | cons m rest ih => rw [writtenMembers, ih, List.map_cons]

/-! ### Blanks and beginnings -/

theorem skipSpace_newline (level : Nat) (cs : List Char) :
    skipSpace (newline level ++ cs) = skipSpace cs := by
  have blank : ∀ c ∈ newline level, isSpace c = true := by
    refine List.forall_mem_cons.mpr ⟨rfl, fun c member => ?_⟩
    rw [List.eq_of_mem_replicate member]
    rfl
  exact List.dropWhile_append_of_pos blank

theorem skipSpace_skipSpace (cs : List Char) : skipSpace (skipSpace cs) = skipSpace cs := by
  induction cs with
  | nil => rfl
  | cons c rest ih => cases visible : isSpace c <;> simp_all [skipSpace]

theorem skipSpace_cons {c : Char} (visible : isSpace c = false) (rest : List Char) :
    skipSpace (c :: rest) = c :: rest := by
  simp [skipSpace, visible]

/-! ### Values -/

theorem value?_skipSpace (fuel : Nat) (cs : List Char) : value? fuel (skipSpace cs) = value? fuel cs := by
  cases fuel with
  | zero => rw [value?, value?]
  | succ fuel => rw [value?, value?, skipSpace_skipSpace]

theorem ends_nil : Ends [] := by simp [Ends]

theorem ends_newline (level : Nat) (cs : List Char) : Ends (newline level ++ cs) := by
  rintro c ⟨rfl⟩
  exact .inr rfl

theorem ends_comma (cs : List Char) : Ends (',' :: cs) := by
  rintro c ⟨rfl⟩
  exact .inl rfl

theorem value?_newline (fuel level : Nat) (cs : List Char) :
    value? fuel (newline level ++ cs) = value? fuel cs := by
  rw [← value?_skipSpace, skipSpace_newline, value?_skipSpace]

/-- A numeral begins with a digit or a minus. -/
theorem head_text {n : Numeral} (proper : n.Proper) (rest : List Char) :
    ∃ c more, n.text ++ rest = c :: more ∧ isSpace c = false ∧
      ∀ d, d ≠ '-' → d.isDigit = false → c ≠ d := by
  obtain ⟨c, more, begins, head⟩ :
      ∃ c more, n.text ++ rest = c :: more ∧ (c = '-' ∨ c.isDigit = true) := by
    obtain ⟨negative, whole, fraction, exponent⟩ := n
    obtain ⟨d, ds, rfl⟩ := List.exists_cons_of_ne_nil proper.whole.1
    cases negative with
    | true => exact ⟨'-', _, rfl, .inl rfl⟩
    | false => exact ⟨d, _, rfl, .inr (proper.whole.2 d (.head _))⟩
  have other (d : Char) (noMinus : d ≠ '-') (noDigit : d.isDigit = false) : c ≠ d := by
    rintro rfl
    rcases head with minus | digit
    · exact noMinus minus
    · rw [digit] at noDigit
      cases noDigit
  refine ⟨c, more, begins, ?_, other⟩
  simp [isSpace, other ' ' (by decide) rfl, other '\n' (by decide) rfl,
    other '\t' (by decide) rfl, other '\r' (by decide) rfl]

/-- A numeral is taken for nothing else. -/
theorem value?_numeral {n : Numeral} (proper : n.Proper) {rest : List Char} (ends : Ends rest)
    (fuel : Nat) : value? (fuel + 1) (n.text ++ rest) = some (.numeral n, rest) := by
  obtain ⟨c, more, begins, visible, other⟩ := head_text proper rest
  have read := numeral?_text proper ends
  rw [begins] at read ⊢
  rw [value?, skipSpace_cons visible]
  split
  case h_7 => rw [read]; rfl
  all_goals
    rename_i same
    exact absurd (List.cons.inj same).1 (other _ (by decide) rfl)

/-- Numbers that are not finite are the only ones without a numeral. -/
theorem floatText_cases (x : Float) :
    (∃ n : Numeral, n.Proper ∧ floatText x = n.text ∧ floatDocument x = .numeral n) ∨
      floatText x = ['n', 'u', 'l', 'l'] ∧ floatDocument x = .null := by
  cases finite : Decimal.Binary.ofFloat? x with
  | none =>
    have text : floatText x = ['n', 'u', 'l', 'l'] := by simp [floatText, finite]
    refine .inr ⟨text, ?_⟩
    rw [floatDocument, text]
    rfl
  | some b =>
    obtain ⟨n, proper, text⟩ := floatText_eq finite
    have read := numeral?_text proper ends_nil
    rw [List.append_nil] at read
    refine .inl ⟨n, proper, text, ?_⟩
    rw [floatDocument, text, read]

/-- How the text of a value begins: neither with a blank nor as a list ends. -/
theorem head_prettyText (level : Nat) (v : Json) :
    ∃ c more, prettyText level v = c :: more ∧ isSpace c = false ∧ c ≠ ']' := by
  have ofNumeral {n : Numeral} (proper : n.Proper) :
      ∃ c more, n.text = c :: more ∧ isSpace c = false ∧ c ≠ ']' := by
    obtain ⟨c, more, begins, visible, other⟩ := head_text proper []
    rw [List.append_nil] at begins
    exact ⟨c, more, begins, visible, other ']' (by decide) rfl⟩
  cases v with
  | null => exact ⟨'n', _, rfl, rfl, by decide⟩
  | bool b => cases b <;> exact ⟨_, _, rfl, rfl, by decide⟩
  | int n =>
    rw [prettyText, intText_eq]
    exact ofNumeral (proper_intNumeral n)
  | float x =>
    rw [prettyText]
    rcases floatText_cases x with ⟨n, proper, text, -⟩ | ⟨text, -⟩
    · rw [text]
      exact ofNumeral proper
    · exact ⟨'n', _, text, rfl, by decide⟩
  | string s => exact ⟨'"', _, rfl, rfl, by decide⟩
  | array items => cases items <;> exact ⟨'[', _, rfl, rfl, by decide⟩
  | object members => cases members <;> exact ⟨'{', _, rfl, rfl, by decide⟩

/-! ### Steps of the reader -/

section Steps

variable {fuel outer level : Nat} {cs rest : List Char} {d : Document}

theorem items?_skipSpace : items? fuel (skipSpace cs) = items? fuel cs := by
  cases fuel with
  | zero => rw [items?, items?]
  | succ fuel => rw [items?, items?, value?_skipSpace]

theorem members?_skipSpace : members? fuel (skipSpace cs) = members? fuel cs := by
  cases fuel with
  | zero => rw [members?, members?]
  | succ fuel => rw [members?, members?, skipSpace_skipSpace]

theorem value?_array {c : Char} {more : List Char} {ds : List Document}
    (begins : skipSpace cs = c :: more) (open_ : c ≠ ']') (read : items? fuel cs = some (ds, rest)) :
    value? (fuel + 1) ('[' :: cs) = some (.array ds, rest) := by
  rw [← items?_skipSpace, begins] at read
  rw [value?, skipSpace_cons rfl]
  simp [begins, open_, read]

theorem value?_object {c : Char} {more : List Char} {ms : List (List Piece × Document)}
    (begins : skipSpace cs = c :: more) (open_ : c ≠ '}') (read : members? fuel cs = some (ms, rest)) :
    value? (fuel + 1) ('{' :: cs) = some (.object ms, rest) := by
  rw [← members?_skipSpace, begins] at read
  rw [value?, skipSpace_cons rfl]
  simp [begins, open_, read]

theorem items?_last (read : value? fuel cs = some (d, newline outer ++ ']' :: rest)) :
    items? (fuel + 1) cs = some ([d], rest) := by
  have skipped : skipSpace (newline outer ++ ']' :: rest) = ']' :: rest := by
    rw [skipSpace_newline, skipSpace_cons rfl]
  simp [items?, read, skipped]

theorem items?_more {more : List Char} {ds : List Document}
    (read : value? fuel cs = some (d, ',' :: more)) (others : items? fuel more = some (ds, rest)) :
    items? (fuel + 1) cs = some (d :: ds, rest) := by
  have skipped : skipSpace (',' :: more) = ',' :: more := skipSpace_cons rfl more
  simp [items?, read, skipped, others]

theorem key?_quoted (name : String) (rest : List Char) :
    key? (quoted name ++ ':' :: rest) = some (piecesOf name, rest) := by
  have read := pieces?_escaped name.toList (':' :: rest)
  have skipped : skipSpace (':' :: rest) = ':' :: rest := skipSpace_cons rfl rest
  simp [key?, quoted, read, skipped, piecesOf]

theorem skipSpace_quoted (name : String) (rest : List Char) :
    skipSpace (quoted name ++ rest) = quoted name ++ rest :=
  skipSpace_cons rfl _

theorem value?_blank : value? fuel (' ' :: cs) = value? fuel cs := by
  rw [← value?_skipSpace, ← value?_skipSpace fuel cs]
  rfl

theorem members?_last {name : String}
    (read : value? fuel cs = some (d, newline outer ++ '}' :: rest)) :
    members? (fuel + 1) (newline level ++ (quoted name ++ ':' :: ' ' :: cs)) =
      some ([(piecesOf name, d)], rest) := by
  have skipped : skipSpace (newline outer ++ '}' :: rest) = '}' :: rest := by
    rw [skipSpace_newline, skipSpace_cons rfl]
  rw [members?, skipSpace_newline, skipSpace_quoted, key?_quoted]
  simp [value?_blank, read, skipped]

theorem members?_more {name : String} {more : List Char} {ms : List (List Piece × Document)}
    (read : value? fuel cs = some (d, ',' :: more)) (others : members? fuel more = some (ms, rest)) :
    members? (fuel + 1) (newline level ++ (quoted name ++ ':' :: ' ' :: cs)) =
      some ((piecesOf name, d) :: ms, rest) := by
  have skipped : skipSpace (',' :: more) = ',' :: more := skipSpace_cons rfl more
  rw [members?, skipSpace_newline, skipSpace_quoted, key?_quoted]
  simp [value?_blank, read, skipped, others]

end Steps

/-! ### Values read -/

theorem skipSpace_items (level : Nat) (v : Json) (vs : List Json) (rest : List Char) :
    ∃ c more, skipSpace (prettyItems level (v :: vs) ++ rest) = c :: more ∧ c ≠ ']' := by
  obtain ⟨c, more, text, visible, open_⟩ := head_prettyText level v
  obtain ⟨after, items⟩ : ∃ after, prettyItems level (v :: vs) =
      newline level ++ (c :: more ++ after) := by
    cases vs with
    | nil => exact ⟨[], by rw [prettyItems, text, List.append_nil]⟩
    | cons w vs => exact ⟨',' :: prettyItems level (w :: vs), by simp [prettyItems, text]⟩
  refine ⟨c, more ++ after ++ rest, ?_, open_⟩
  rw [items, List.append_assoc, skipSpace_newline]
  exact (skipSpace_cons visible _).trans (by simp)

theorem skipSpace_members (level : Nat) (m : String × Json) (ms : List (String × Json))
    (rest : List Char) :
    ∃ more, skipSpace (prettyMembers level (m :: ms) ++ rest) = '"' :: more := by
  obtain ⟨name, v⟩ := m
  obtain ⟨after, members⟩ : ∃ after, prettyMembers level ((name, v) :: ms) =
      newline level ++ '"' :: after := by
    cases ms with
    | nil =>
      rw [prettyMembers, List.append_assoc]
      exact ⟨_, rfl⟩
    | cons m ms =>
      rw [prettyMembers, List.append_assoc]
      · exact ⟨_, rfl⟩
      · nofun
  refine ⟨after ++ rest, ?_⟩
  rw [members, List.append_assoc, skipSpace_newline]
  exact skipSpace_cons rfl _

mutual

/-- The text of a value is read up to its end; each call of the reader takes at least half a
character. -/
theorem value?_pretty : ∀ (v : Json) (level fuel : Nat) {rest : List Char}, Ends rest →
    2 * (prettyText level v).length ≤ fuel →
      value? fuel (prettyText level v ++ rest) = some (v.written, rest)
  | v, level, 0, rest, _, enough => by
    obtain ⟨c, more, text, -⟩ := head_prettyText level v
    simp [text] at enough
  | .null, level, fuel + 1, rest, _, _ => by
    rw [prettyText, written]
    rfl
  | .bool true, level, fuel + 1, rest, _, _ => by
    rw [prettyText, written]
    rfl
  | .bool false, level, fuel + 1, rest, _, _ => by
    rw [prettyText, written]
    rfl
  | .int n, level, fuel + 1, rest, ends, _ => by
    rw [prettyText, intText_eq, written]
    exact value?_numeral (proper_intNumeral n) ends fuel
  | .float x, level, fuel + 1, rest, ends, _ => by
    rw [prettyText, written]
    rcases floatText_cases x with ⟨n, proper, text, read⟩ | ⟨text, read⟩
    · rw [text, read]
      exact value?_numeral proper ends fuel
    · rw [text, read]
      rfl
  | .string s, level, fuel + 1, rest, _, _ => by
    have read := pieces?_escaped s.toList rest
    have text : prettyText level (.string s) ++ rest =
        '"' :: (s.toList.flatMap escapeChar ++ '"' :: rest) := by
      simp [prettyText, quoted]
    rw [text, value?, skipSpace_cons rfl, written]
    simp [read, piecesOf]
  | .array [], level, fuel + 1, rest, _, _ => by
    rw [prettyText, written, writtenItems]
    rfl
  | .array (v :: vs), level, fuel + 1, rest, _, enough => by
    have text : prettyText level (.array (v :: vs)) ++ rest =
        '[' :: (prettyItems (level + 1) (v :: vs) ++ (newline level ++ ']' :: rest)) := by
      simp [prettyText]
    have enough' : 2 * (prettyItems (level + 1) (v :: vs)).length ≤ fuel := by
      simp [prettyText] at enough
      omega
    obtain ⟨c, more, begins, open_⟩ := skipSpace_items (level + 1) v vs
      (newline level ++ ']' :: rest)
    rw [text, written]
    exact value?_array begins open_ (items?_pretty v vs (level + 1) fuel _ _ enough')
  | .object [], level, fuel + 1, rest, _, _ => by
    rw [prettyText, written, writtenMembers]
    rfl
  | .object (m :: ms), level, fuel + 1, rest, _, enough => by
    have text : prettyText level (.object (m :: ms)) ++ rest =
        '{' :: (prettyMembers (level + 1) (m :: ms) ++ (newline level ++ '}' :: rest)) := by
      simp [prettyText]
    have enough' : 2 * (prettyMembers (level + 1) (m :: ms)).length ≤ fuel := by
      simp [prettyText] at enough
      omega
    obtain ⟨more, begins⟩ := skipSpace_members (level + 1) m ms (newline level ++ '}' :: rest)
    rw [text, written]
    exact value?_object begins (by decide) (members?_pretty m ms (level + 1) fuel _ _ enough')
termination_by structural _ _ fuel => fuel

theorem items?_pretty : ∀ (v : Json) (vs : List Json) (level fuel outer : Nat)
    (rest : List Char), 2 * (prettyItems level (v :: vs)).length ≤ fuel →
      items? fuel (prettyItems level (v :: vs) ++ (newline outer ++ ']' :: rest)) =
        some (writtenItems (v :: vs), rest)
  | v, vs, level, 0, outer, rest, enough => by
    cases vs <;> simp [prettyItems, newline] at enough
  | v, [], level, fuel + 1, outer, rest, enough => by
    have enough' : 2 * (prettyText level v).length ≤ fuel := by
      simp [prettyItems, newline] at enough
      omega
    have value := value?_pretty v level fuel (ends_newline outer (']' :: rest)) enough'
    rw [prettyItems, List.append_assoc, writtenItems, writtenItems]
    exact items?_last ((value?_newline fuel level _).trans value)
  | v, w :: vs, level, fuel + 1, outer, rest, enough => by
    have enough' : 2 * (prettyText level v).length ≤ fuel ∧
        2 * (prettyItems level (w :: vs)).length ≤ fuel := by
      simp [prettyItems, newline] at enough
      omega
    have others := items?_pretty w vs level fuel outer rest enough'.2
    have value := value?_pretty v level fuel
      (ends_comma (prettyItems level (w :: vs) ++ (newline outer ++ ']' :: rest))) enough'.1
    have text : prettyItems level (v :: w :: vs) ++ (newline outer ++ ']' :: rest) =
        newline level ++ (prettyText level v ++
          ',' :: (prettyItems level (w :: vs) ++ (newline outer ++ ']' :: rest))) := by
      simp [prettyItems]
    rw [text, writtenItems]
    exact items?_more ((value?_newline fuel level _).trans value) others
termination_by structural _ _ _ fuel => fuel

theorem members?_pretty : ∀ (m : String × Json) (ms : List (String × Json)) (level fuel outer : Nat)
    (rest : List Char), 2 * (prettyMembers level (m :: ms)).length ≤ fuel →
      members? fuel (prettyMembers level (m :: ms) ++ (newline outer ++ '}' :: rest)) =
        some (writtenMembers (m :: ms), rest)
  | (name, v), ms, level, 0, outer, rest, enough => by
    cases ms <;> simp [prettyMembers, newline] at enough
  | (name, v), [], level, fuel + 1, outer, rest, enough => by
    have enough' : 2 * (prettyText level v).length ≤ fuel := by
      simp [prettyMembers, newline] at enough
      omega
    have value := value?_pretty v level fuel (ends_newline outer ('}' :: rest)) enough'
    have text : prettyMembers level [(name, v)] ++ (newline outer ++ '}' :: rest) =
        newline level ++ (quoted name ++
          ':' :: ' ' :: (prettyText level v ++ (newline outer ++ '}' :: rest))) := by
      simp [prettyMembers]
    rw [text, writtenMembers, writtenMembers]
    exact members?_last value
  | (name, v), m :: ms, level, fuel + 1, outer, rest, enough => by
    have enough' : 2 * (prettyText level v).length ≤ fuel ∧
        2 * (prettyMembers level (m :: ms)).length ≤ fuel := by
      simp [prettyMembers, newline] at enough
      omega
    have others := members?_pretty m ms level fuel outer rest enough'.2
    have value := value?_pretty v level fuel
      (ends_comma (prettyMembers level (m :: ms) ++ (newline outer ++ '}' :: rest))) enough'.1
    have text : prettyMembers level ((name, v) :: m :: ms) ++ (newline outer ++ '}' :: rest) =
        newline level ++ (quoted name ++ ':' :: ' ' :: (prettyText level v ++
          ',' :: (prettyMembers level (m :: ms) ++ (newline outer ++ '}' :: rest)))) := by
      simp [prettyMembers]
    rw [text, writtenMembers]
    exact members?_more value others
termination_by structural _ _ _ fuel => fuel

end

/-- Every value that is written is read. -/
theorem ofText?_pretty (v : Json) : Document.ofText? v.pretty.toList = some v.written := by
  have read := value?_pretty v 0 (2 * v.pretty.toList.length + 2) ends_nil (by
    rw [pretty, String.toList_ofList]
    omega)
  rw [List.append_nil, ← String.toList_ofList (l := prettyText 0 v), ← pretty] at read
  rw [Document.ofText?, read]
  rfl

end RepoAudit.Json
