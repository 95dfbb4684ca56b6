import RepoAudit.Source.Literal

/-!
# Literals of a line

What a literal is, and where the literals of a line stand if they are taken from left to right.
`getElem?_maskLiterals` shows that blanking out changes the characters of the literals and no
others.
-/

namespace RepoAudit.Source

/-- What stands between two quotes: a backslash takes the next character in. -/
inductive Body (quote : Char) : List Char → Prop
  | nil : Body quote []
  | plain {c : Char} {cs : List Char} (noQuote : c ≠ quote) (noEscape : c ≠ '\\')
    (later : Body quote cs) : Body quote (c :: cs)
  | escaped {c : Char} {cs : List Char} (later : Body quote cs) : Body quote ('\\' :: c :: cs)

/-- A literal with its quotes. -/
def IsLiteral (l : List Char) : Prop :=
  ∃ quote body, (quote = '"' ∨ quote = '\'') ∧ Body quote body ∧ l = quote :: (body ++ [quote])

/-- No literal begins at the start of a text. -/
def Unopened (cs : List Char) : Prop := ∀ l, IsLiteral l → ¬ l <+: cs

/-- From place `i` on, a literal of `n` characters stands on a line. A literal is looked for behind
the one before it. -/
inductive LiteralAt : List Char → Nat → Nat → Prop
  | here {l rest : List Char} (literal : IsLiteral l) : LiteralAt (l ++ rest) 0 l.length
  | behind {l rest : List Char} {i n : Nat} (literal : IsLiteral l) (later : LiteralAt rest i n) :
    LiteralAt (l ++ rest) (l.length + i) n
  | after {c : Char} {rest : List Char} {i n : Nat} (unopened : Unopened (c :: rest))
    (later : LiteralAt rest i n) : LiteralAt (c :: rest) (i + 1) n

/-- Place `j` of a line lies in a literal. -/
def Quoted (line : List Char) (j : Nat) : Prop := ∃ i n, LiteralAt line i n ∧ i ≤ j ∧ j < i + n

theorem Body.of_plain {quote : Char} {cs : List Char} (plain : ∀ c ∈ cs, c ≠ quote ∧ c ≠ '\\') :
    Body quote cs := by
  induction cs with
  | nil => exact .nil
  | cons c cs ih =>
    obtain ⟨⟨noQuote, noEscape⟩, later⟩ := List.forall_mem_cons.mp plain
    exact .plain noQuote noEscape (ih later)

theorem IsLiteral.length_pos {l : List Char} (literal : IsLiteral l) : 0 < l.length := by
  obtain ⟨quote, body, -, -, rfl⟩ := literal
  exact Nat.succ_pos _

/-! ### The first literal -/

theorem closingLength_of_body {quote : Char} (noEscape : quote ≠ '\\') {body : List Char}
    (closed : Body quote body) (rest : List Char) :
    closingLength quote (body ++ quote :: rest) = some (body.length + 1) := by
  induction closed with
  | nil => simp [closingLength, noEscape]
  | plain noQuote other _ ih => simp [closingLength, noQuote, other, ih]
  | escaped _ ih => simp [closingLength, ih]

theorem exists_body_of_closingLength {quote : Char} {cs : List Char} {n : Nat}
    (found : closingLength quote cs = some n) :
    ∃ body rest, Body quote body ∧ cs = body ++ quote :: rest := by
  fun_induction closingLength quote cs generalizing n with
  | case1 => cases found
  | case2 => cases found
  | case3 c rest ih =>
    obtain ⟨m, later, -⟩ := Option.map_eq_some_iff.mp found
    obtain ⟨body, rest, closed, rfl⟩ := ih later
    exact ⟨'\\' :: c :: body, rest, .escaped closed, rfl⟩
  | case4 c rest _ _ closes =>
    obtain rfl := eq_of_beq closes
    exact ⟨[], rest, .nil, rfl⟩
  | case5 c rest noEnd noEscape other ih =>
    obtain ⟨m, later, -⟩ := Option.map_eq_some_iff.mp found
    obtain ⟨body, rest, closed, rfl⟩ := ih later
    have apart : c ≠ '\\' := by
      rintro rfl
      cases body with
      | nil => exact noEscape quote rest rfl rfl
      | cons d body => exact noEscape d (body ++ quote :: rest) rfl rfl
    exact ⟨c :: body, rest, .plain (by simpa using other) apart closed, rfl⟩

theorem literalLength?_append {l : List Char} (literal : IsLiteral l) (rest : List Char) :
    literalLength? (l ++ rest) = some l.length := by
  obtain ⟨quote, body, opens, closed, rfl⟩ := literal
  have noEscape : quote ≠ '\\' := by rcases opens with rfl | rfl <;> decide
  simp [literalLength?, opens, closingLength_of_body noEscape closed]

theorem exists_literal_of_literalLength? {cs : List Char} {n : Nat}
    (found : literalLength? cs = some n) : ∃ l rest, IsLiteral l ∧ cs = l ++ rest := by
  cases cs with
  | nil => cases found
  | cons quote cs =>
    rw [literalLength?] at found
    split at found
    · rename_i opens
      obtain ⟨m, later, -⟩ := Option.map_eq_some_iff.mp found
      obtain ⟨body, rest, closed, rfl⟩ := exists_body_of_closingLength later
      exact ⟨quote :: (body ++ [quote]), rest, ⟨quote, body, by simpa using opens, closed, rfl⟩,
        by simp⟩
    · cases found

theorem literalLength?_eq_none_iff {cs : List Char} : literalLength? cs = none ↔ Unopened cs := by
  constructor
  · rintro absent l literal ⟨rest, rfl⟩
    rw [literalLength?_append literal] at absent
    cases absent
  · intro unopened
    refine Option.eq_none_iff_forall_ne_some.mpr fun n found => ?_
    obtain ⟨l, rest, literal, rfl⟩ := exists_literal_of_literalLength? found
    exact unopened l literal (List.prefix_append l rest)

theorem literal_unique {l l' rest rest' : List Char} (literal : IsLiteral l)
    (literal' : IsLiteral l') (same : l ++ rest = l' ++ rest') : l = l' ∧ rest = rest' := by
  have length := literalLength?_append literal rest
  rw [same, literalLength?_append literal'] at length
  exact List.append_inj same (Option.some.inj length).symm

/-! ### A line from left to right -/

/-- A line is read literal by literal, and character by character between them. -/
inductive Scanned : List Char → Prop
  | nil : Scanned []
  | literal {l rest : List Char} (literal : IsLiteral l) (later : Scanned rest) :
    Scanned (l ++ rest)
  | plain {c : Char} {rest : List Char} (unopened : Unopened (c :: rest)) (later : Scanned rest) :
    Scanned (c :: rest)

theorem scanned (line : List Char) : Scanned line := by
  induction size : line.length using Nat.strongRecOn generalizing line with
  | ind n ih =>
    subst size
    cases line with
    | nil => exact .nil
    | cons c rest =>
      cases found : literalLength? (c :: rest) with
      | none => exact .plain (literalLength?_eq_none_iff.mp found) (ih _ (Nat.lt_succ_self _) _ rfl)
      | some n =>
        obtain ⟨l, more, literal, split⟩ := exists_literal_of_literalLength? found
        rw [split]
        refine .literal literal (ih more.length ?_ more rfl)
        have := literal.length_pos
        rw [split, List.length_append]
        omega

theorem not_quoted_nil (j : Nat) : ¬ Quoted [] j := by
  rintro ⟨i, n, at', -⟩
  generalize empty : [] = line at at'
  cases at' with
  | here literal | behind literal =>
    have := literal.length_pos
    have := congrArg List.length empty
    simp at this
    omega
  | after => cases empty

theorem quoted_append_iff {l rest : List Char} (literal : IsLiteral l) {j : Nat} :
    Quoted (l ++ rest) j ↔ j < l.length ∨ l.length ≤ j ∧ Quoted rest (j - l.length) := by
  constructor
  · rintro ⟨i, n, at', low, high⟩
    generalize whole : l ++ rest = line at at'
    cases at' with
    | here literal' =>
      obtain ⟨rfl, -⟩ := literal_unique literal literal' whole
      exact .inl (by omega)
    | @behind l' rest' i n literal' later =>
      obtain ⟨rfl, rfl⟩ := literal_unique literal literal' whole
      exact .inr ⟨by omega, i, n, later, by omega, by omega⟩
    | after unopened => exact absurd ⟨rest, whole⟩ (unopened l literal)
  · rintro (within | ⟨behind, i, n, later, low, high⟩)
    · exact ⟨0, l.length, .here literal, Nat.zero_le j, by omega⟩
    · exact ⟨l.length + i, n, .behind literal later, by omega, by omega⟩

theorem quoted_cons_iff {c : Char} {rest : List Char} (unopened : Unopened (c :: rest)) {j : Nat} :
    Quoted (c :: rest) j ↔ ∃ k, j = k + 1 ∧ Quoted rest k := by
  constructor
  · rintro ⟨i, n, at', low, high⟩
    generalize whole : c :: rest = line at at'
    cases at' with
    | here literal | behind literal =>
      exact absurd ⟨_, whole.symm⟩ (unopened _ literal)
    | @after d rest' i n _ later =>
      obtain ⟨rfl, rfl⟩ := List.cons.inj whole
      exact ⟨j - 1, by omega, i, n, later, by omega, by omega⟩
  · rintro ⟨k, rfl, i, n, later, low, high⟩
    exact ⟨i + 1, n, .after unopened later, by omega, by omega⟩

theorem unopened_of_noQuote {c : Char} (noDouble : c ≠ '"') (noSingle : c ≠ '\'')
    (rest : List Char) : Unopened (c :: rest) := by
  rw [← literalLength?_eq_none_iff]
  simp [literalLength?, noDouble, noSingle]

/-- Behind characters other than quotes the first literal is found where it begins. -/
theorem literalAt_append {xs l : List Char} (free : ∀ c ∈ xs, c ≠ '"' ∧ c ≠ '\'')
    (literal : IsLiteral l) (rest : List Char) :
    LiteralAt (xs ++ (l ++ rest)) xs.length l.length := by
  induction xs with
  | nil => exact .here literal
  | cons c xs ih =>
    obtain ⟨⟨noDouble, noSingle⟩, later⟩ := List.forall_mem_cons.mp free
    exact .after (unopened_of_noQuote noDouble noSingle _) (ih later)

/-! ### Literals replaced -/

variable {image : Nat → List Char}

theorem replaceLiterals_drop (skip : Nat) (cs : List Char) :
    replaceLiterals image skip cs = replaceLiterals image 0 (cs.drop skip) := by
  induction skip generalizing cs with
  | zero => rw [List.drop_zero]
  | succ skip ih =>
    cases cs with
    | nil => rw [List.drop_nil, replaceLiterals, replaceLiterals]
    | cons c rest => rw [replaceLiterals, ih, List.drop_succ_cons]

theorem replaceLiterals_literal {l : List Char} (literal : IsLiteral l) (rest : List Char) :
    replaceLiterals image 0 (l ++ rest) = image l.length ++ replaceLiterals image 0 rest := by
  have length := literalLength?_append literal rest
  obtain ⟨c, more, rfl⟩ := List.exists_cons_of_length_pos literal.length_pos
  rw [List.cons_append] at length ⊢
  rw [replaceLiterals, length]
  simp [replaceLiterals_drop more.length]

theorem replaceLiterals_plain {c : Char} {rest : List Char} (unopened : Unopened (c :: rest)) :
    replaceLiterals image 0 (c :: rest) = c :: replaceLiterals image 0 rest := by
  rw [replaceLiterals, literalLength?_eq_none_iff.mpr unopened]

/-- Characters in front of the first quote are kept. -/
theorem replaceLiterals_append {xs : List Char} (free : ∀ c ∈ xs, c ≠ '"' ∧ c ≠ '\'')
    (ys : List Char) : replaceLiterals image 0 (xs ++ ys) = xs ++ replaceLiterals image 0 ys := by
  induction xs with
  | nil => rfl
  | cons c xs ih =>
    obtain ⟨⟨noDouble, noSingle⟩, later⟩ := List.forall_mem_cons.mp free
    rw [List.cons_append, replaceLiterals_plain (unopened_of_noQuote noDouble noSingle _), ih later,
      List.cons_append]

/-- Blanking out changes the characters within literals, and no others. -/
theorem getElem?_maskLiterals (cs : List Char) (j : Nat) :
    (Quoted cs j → (maskLiterals cs)[j]? = some ' ') ∧
      (¬ Quoted cs j → (maskLiterals cs)[j]? = cs[j]?) := by
  unfold maskLiterals
  induction scanned cs generalizing j with
  | nil => exact ⟨fun quoted => absurd quoted (not_quoted_nil j), fun _ => rfl⟩
  | @literal l rest literal _ ih =>
    rw [quoted_append_iff literal, replaceLiterals_literal literal]
    by_cases within : j < l.length
    · rw [List.getElem?_append_left (by simpa using within)]
      simp [within]
    · have behind : l.length ≤ j := Nat.le_of_not_lt within
      rw [List.getElem?_append_right (by simpa using behind), List.getElem?_append_right behind,
        List.length_replicate]
      simpa [within, behind] using ih (j - l.length)
  | @plain c rest unopened _ ih =>
    rw [quoted_cons_iff unopened, replaceLiterals_plain unopened]
    cases j with
    | zero => simp
    | succ j => simpa using ih j

/-- A word without blanks is found on the line with its literals blanked out where it stands on the
line outside of literals. -/
theorem prefix_drop_maskLiterals_iff {line word : List Char} (solid : ' ' ∉ word) {i : Nat} :
    word <+: (maskLiterals line).drop i ↔
      word <+: line.drop i ∧ ∀ j, i ≤ j → j < i + word.length → ¬ Quoted line j := by
  simp only [List.prefix_iff_getElem?, List.getElem?_drop]
  constructor
  · intro found
    have outside {k : Nat} (short : k < word.length) : ¬ Quoted line (i + k) := by
      intro quoted
      have blank := ((getElem?_maskLiterals line (i + k)).1 quoted).symm.trans (found k short)
      exact solid (Option.some.inj blank ▸ List.getElem_mem short)
    refine ⟨fun k short => ?_, fun j low high => ?_⟩
    · rw [← (getElem?_maskLiterals line (i + k)).2 (outside short)]
      exact found k short
    · obtain ⟨k, rfl⟩ := Nat.exists_eq_add_of_le low
      exact outside (by omega)
  · rintro ⟨found, outside⟩ k short
    rw [(getElem?_maskLiterals line (i + k)).2 (outside (i + k) (by omega) (by omega))]
    exact found k short

end RepoAudit.Source
