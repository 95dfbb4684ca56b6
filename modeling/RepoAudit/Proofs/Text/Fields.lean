import RepoAudit.Text.Split

/-!
# Texts taken apart and put together

What is split at a separator is found again when it is joined, and the other way round. Texts that
are put one behind the other are split one by one if a separator or the end of a line stands between
them.
-/

namespace RepoAudit.Text

variable {sep : Char}

/-! ### Fields -/

theorem fields_append_cons (a b : List Char) :
    fields sep (a ++ sep :: b) = fields sep a ++ fields sep b := by
  simp only [fields_eq_splitOn, List.splitOn_append_cons_self]

theorem fields_of_not_mem {cs : List Char} (absent : sep ∉ cs) : fields sep cs = [cs] := by
  rw [fields_eq_splitOn, List.splitOn_eq_singleton absent]

theorem fieldsBy_ne_nil (p : Char → Bool) (cs : List Char) : fieldsBy p cs ≠ [] := by
  rw [fieldsBy_eq_splitOnP]
  exact List.splitOnP_ne_nil p cs

theorem fields_ne_nil (cs : List Char) : fields sep cs ≠ [] := fieldsBy_ne_nil _ cs

theorem join_fields (cs : List Char) : join [sep] (fields sep cs) = cs := by
  rw [fields_eq_splitOn]
  exact List.intercalate_splitOn sep

/-- Fields that are free of a separator are found again in what they are joined to. -/
theorem fields_join {fs : List (List Char)} (filled : fs ≠ []) (free : ∀ f ∈ fs, sep ∉ f) :
    fields sep (join [sep] fs) = fs := by
  rw [fields_eq_splitOn]
  exact List.splitOn_intercalate sep free filled

theorem mem_fieldsBy {p : Char → Bool} {cs f : List Char} (field : f ∈ fieldsBy p cs) {c : Char}
    (inside : c ∈ f) : c ∈ cs ∧ p c = false := by
  induction cs generalizing f with
  | nil =>
    obtain rfl := List.mem_singleton.mp field
    cases inside
  | cons d rest ih =>
    have later {g : List Char} (member : g ∈ fieldsBy p rest) (within : c ∈ g) :
        c ∈ d :: rest ∧ p c = false := (ih member within).imp_left (.tail d)
    obtain ⟨first, others, split⟩ := List.exists_cons_of_ne_nil (fieldsBy_ne_nil p rest)
    rw [split] at later
    rw [fieldsBy, split] at field
    dsimp only at field
    split at field
    · rcases List.mem_cons.mp field with rfl | field
      · cases inside
      · exact later field inside
    · rename_i plain
      rcases List.mem_cons.mp field with rfl | field
      · rcases List.mem_cons.mp inside with rfl | inside
        · exact ⟨.head rest, Bool.eq_false_iff.mpr plain⟩
        · exact later (.head others) inside
      · exact later (.tail first field) inside

theorem mem_of_mem_fields {cs f : List Char} (field : f ∈ fields sep cs) {c : Char}
    (inside : c ∈ f) : c ∈ cs := (mem_fieldsBy field inside).1

theorem join_cons {f : List Char} {fs : List (List Char)} (filled : fs ≠ []) :
    join [sep] (f :: fs) = f ++ sep :: join [sep] fs := by
  rw [join, List.intercalate_cons_of_ne_nil filled, List.append_assoc, List.singleton_append, join]

theorem join_append {fs gs : List (List Char)} (filled : fs ≠ []) (filled' : gs ≠ []) :
    join [sep] (fs ++ gs) = join [sep] fs ++ sep :: join [sep] gs := by
  induction fs with
  | nil => exact absurd rfl filled
  | cons f rest ih =>
    rw [List.cons_append, join_cons (List.append_ne_nil_of_right_ne_nil rest filled')]
    cases rest with
    | nil => rw [List.nil_append, join, join, List.intercalate_singleton]
    | cons g more => rw [ih (List.cons_ne_nil g more), join_cons (List.cons_ne_nil g more),
        List.append_assoc, List.cons_append]

theorem map_join (g : Char → Char) (fs : List (List Char)) :
    (join [sep] fs).map g = join [g sep] (fs.map (·.map g)) := by
  induction fs with
  | nil => rfl
  | cons f rest ih =>
    cases rest with
    | nil => simp [join]
    | cons h more =>
      have filled : (h :: more).map (·.map g) ≠ [] :=
        mt List.map_eq_nil_iff.mp (List.cons_ne_nil h more)
      rw [join_cons (List.cons_ne_nil h more), List.map_append, List.map_cons, ih,
        List.map_cons (l := h :: more), join_cons filled]

/-- Fields are found again where a separator of the text is the only one of a kind of characters. -/
theorem fieldsBy_join {p : Char → Bool} (separates : p sep = true) {fs : List (List Char)}
    (filled : fs ≠ []) (free : ∀ f ∈ fs, ∀ c ∈ f, p c = false) :
    fieldsBy p (join [sep] fs) = fs := by
  induction fs with
  | nil => exact absurd rfl filled
  | cons f rest ih =>
    obtain ⟨head, tail⟩ := List.forall_mem_cons.mp free
    cases rest with
    | nil =>
      rw [join, List.intercalate_singleton, fieldsBy_eq_splitOnP,
        List.splitOnP_eq_singleton head]
    | cons g more =>
      rw [join_cons (List.cons_ne_nil g more), fieldsBy_eq_splitOnP,
        List.splitOnP_append_cons_of_forall_mem head sep separates, ← fieldsBy_eq_splitOnP,
        ih (List.cons_ne_nil g more) tail]

/-- Words are found again in what they are joined to, also if there are none. -/
theorem filter_fieldsBy_join {p : Char → Bool} (separates : p sep = true) {ws : List (List Char)}
    (words : ∀ w ∈ ws, w ≠ [] ∧ ∀ c ∈ w, p c = false) :
    (fieldsBy p (join [sep] ws)).filter (!·.isEmpty) = ws := by
  cases ws with
  | nil => rfl
  | cons w rest =>
    rw [fieldsBy_join separates (List.cons_ne_nil w rest) fun f member => (words f member).2,
      List.filter_eq_self]
    intro f member
    simpa using (words f member).1

theorem join_inj {ws ws' : List (List Char)} (words : ∀ w ∈ ws, w ≠ [] ∧ sep ∉ w)
    (words' : ∀ w ∈ ws', w ≠ [] ∧ sep ∉ w) : join [sep] ws = join [sep] ws' ↔ ws = ws' := by
  have found {vs : List (List Char)} (each : ∀ w ∈ vs, w ≠ [] ∧ sep ∉ w) :
      (fieldsBy (· == sep) (join [sep] vs)).filter (!·.isEmpty) = vs := by
    refine filter_fieldsBy_join (p := (· == sep)) (beq_self_eq_true sep) fun w member => ?_
    refine (each w member).imp_right fun absent c inside => beq_false_of_ne ?_
    rintro rfl
    exact absent inside
  refine ⟨fun same => ?_, congrArg _⟩
  rw [← found words, same, found words']

theorem mem_join {fs : List (List Char)} {c : Char} (inside : c ∈ join [sep] fs) :
    c = sep ∨ ∃ f ∈ fs, c ∈ f := by
  induction fs with
  | nil => cases inside
  | cons f rest ih =>
    cases rest with
    | nil =>
      rw [join, List.intercalate_singleton] at inside
      exact .inr ⟨f, .head _, inside⟩
    | cons g more =>
      rw [join_cons (List.cons_ne_nil g more), List.mem_append, List.mem_cons] at inside
      rcases inside with inside | same | inside
      · exact .inr ⟨f, .head _, inside⟩
      · exact .inl same
      · rcases ih inside with same | ⟨g', member, inside⟩
        · exact .inl same
        · exact .inr ⟨g', .tail f member, inside⟩

theorem getLast?_join {fs : List (List Char)} (filled : fs ≠ []) (last : List Char) :
    (join [sep] (fs ++ [last])).getLast? = some (last.getLast?.getD sep) := by
  rw [join_append filled (List.cons_ne_nil last []), join.eq_def _ [last],
    List.intercalate_singleton, List.getLast?_append, List.getLast?_cons, Option.some_or]

theorem not_mem_join {fs : List (List Char)} {c : Char} (other : c ≠ sep) (free : ∀ f ∈ fs, c ∉ f) :
    c ∉ join [sep] fs := by
  intro inside
  rcases mem_join inside with same | ⟨f, member, inside⟩
  · exact other same
  · exact free f member inside

/-- The fields of a text come first in those of another if the other goes on with a separator. -/
theorem fields_prefix_iff (a b : List Char) :
    fields sep a <+: fields sep b ↔ a = b ∨ a ++ [sep] <+: b := by
  constructor
  · rintro ⟨more, same⟩
    replace same := congrArg (join [sep]) same
    rw [join_fields] at same
    cases more with
    | nil =>
      rw [List.append_nil, join_fields] at same
      exact .inl same
    | cons f more =>
      rw [join_append (fields_ne_nil a) (List.cons_ne_nil f more), join_fields] at same
      exact .inr ⟨join [sep] (f :: more), by rw [← same, List.append_assoc, List.singleton_append]⟩
  · rintro (rfl | ⟨rest, rfl⟩)
    · exact List.prefix_refl _
    · rw [List.append_assoc, List.singleton_append, fields_append_cons]
      exact List.prefix_append _ _

/-! ### Beginnings and ends -/

theorem dropStart?_append (word rest : List Char) : dropStart? word (word ++ rest) = some rest := by
  rw [dropStart?, if_pos (List.isPrefixOf_iff_prefix.mpr (List.prefix_append word rest)),
    List.drop_left]

theorem dropStart?_eq_none_iff {word cs : List Char} :
    dropStart? word cs = none ↔ ¬ word <+: cs := by
  rw [dropStart?, ← List.isPrefixOf_iff_prefix]
  split <;> simp [*]

theorem dropEnd?_append (cs word : List Char) : dropEnd? word (cs ++ word) = some cs := by
  rw [dropEnd?, List.reverse_append, dropStart?_append, Option.map_some, List.reverse_reverse]

theorem dropEnd?_isSome_iff {word cs : List Char} :
    (dropEnd? word cs).isSome = true ↔ word <:+ cs := by
  rw [dropEnd?, Option.isSome_map, Option.isSome_iff_ne_none, ne_eq, dropStart?_eq_none_iff,
    Decidable.not_not, List.reverse_prefix]

theorem dropEnd?_concat {c : Char} (other : c ≠ sep) (cs : List Char) :
    dropEnd? [sep] (cs ++ [c]) = none := by
  simp [dropEnd?, dropStart?, other.symm]

theorem cut?_append {a : List Char} (absent : sep ∉ a) (b : List Char) :
    cut? sep (a ++ sep :: b) = some (a, b) := by
  induction a with
  | nil => simp [cut?]
  | cons c rest ih =>
    obtain ⟨differs, later⟩ := not_or.mp (mt List.mem_cons.mpr absent)
    simp [cut?, Ne.symm differs, ih later]

/-- The first occurrence of a character splits a text in one way only. -/
theorem append_cons_eq_iff {a b a' b' : List Char} (absent : sep ∉ a)
    (absent' : sep ∉ a') : a ++ sep :: b = a' ++ sep :: b' ↔ a = a' ∧ b = b' := by
  refine ⟨fun same => ?_, fun ⟨left, right⟩ => by rw [left, right]⟩
  have cut := cut?_append absent b
  rw [same, cut?_append absent' b'] at cut
  exact (Prod.mk.inj (Option.some.inj cut)).imp Eq.symm Eq.symm

theorem fieldsAtMost_join {fs : List (List Char)} {last : List Char} (free : ∀ f ∈ fs, sep ∉ f) :
    fieldsAtMost sep (fs.length + 1) (join [sep] (fs ++ [last])) = fs ++ [last] := by
  induction fs with
  | nil => rw [List.nil_append, join, List.intercalate_singleton, List.length_nil, fieldsAtMost]
  | cons f rest ih =>
    obtain ⟨head, tail⟩ := List.forall_mem_cons.mp free
    rw [List.cons_append, join_cons (by simp), List.length_cons, fieldsAtMost, cut?_append head]
    exact congrArg (f :: ·) (ih tail)

/-! ### Words in a text -/

theorem cutWord?_eq_none {word cs : List Char} : cutWord? word cs = none ↔ ¬ word <:+: cs := by
  induction cs with
  | nil => simp [cutWord?]
  | cons c rest ih =>
    rw [cutWord?, List.infix_cons_iff, not_or, ← ih, dropStart?, ← List.isPrefixOf_iff_prefix]
    split <;> simp_all

theorem occurs_iff {word cs : List Char} : occurs word cs = true ↔ word <:+: cs := by
  rw [occurs, Option.isSome_iff_ne_none, ne_eq, cutWord?_eq_none, Decidable.not_not]

/-! ### Lines -/

theorem dropReturn_of_ne {line : List Char} (plain : line.getLast? ≠ some '\r') :
    dropReturn line = line := if_neg plain

theorem dropReturn_cons {c : Char} (plain : c ≠ '\r') (line : List Char) :
    dropReturn (c :: line) = c :: dropReturn line := by
  cases line with
  | nil => exact dropReturn_of_ne fun same => plain (Option.some.inj same)
  | cons d rest =>
    rw [dropReturn, dropReturn, List.getLast?_cons_cons, List.dropLast_cons_cons]
    exact (apply_ite (c :: ·) _ _ _).symm

theorem dropReturn_prefix (line : List Char) : dropReturn line <+: line := by
  unfold dropReturn
  split
  · exact List.dropLast_prefix line
  · exact List.prefix_refl line

theorem lines_of_fields {cs last : List Char} {before : List (List Char)}
    (split : fields '\n' cs = before ++ [last]) :
    lines cs = before.map dropReturn ++ if last.isEmpty then [] else [last] := by
  cases cs with
  | nil =>
    obtain ⟨rfl, rfl⟩ : before = [] ∧ last = [] := by
      cases before with
      | nil => exact ⟨rfl, (List.cons.inj split).1.symm⟩
      | cons f rest => simp [fields, fieldsBy] at split
    rfl
  | cons c rest => simp [lines, split]

theorem exists_last_field (sep : Char) (cs : List Char) :
    ∃ before last, fields sep cs = before ++ [last] :=
  ⟨_, _, (List.dropLast_concat_getLast (fields_ne_nil cs)).symm⟩

theorem lines_append {a : List Char} (ended : a = [] ∨ a.getLast? = some '\n') (b : List Char) :
    lines (a ++ b) = lines a ++ lines b := by
  rcases ended with rfl | ended
  · rfl
  obtain ⟨a, rfl⟩ := List.getLast?_eq_some_iff.mp ended
  obtain ⟨before, last, split⟩ := exists_last_field '\n' b
  have whole : fields '\n' (a ++ ['\n'] ++ b) = fields '\n' a ++ before ++ [last] := by
    rw [List.append_assoc, List.singleton_append, fields_append_cons, split, List.append_assoc]
  rw [lines_of_fields whole, lines_of_fields split, lines_of_fields (fields_append_cons a [])]
  simp

/-- The first line begins with the first character. -/
theorem lines_cons {c : Char} (noFeed : c ≠ '\n') (noReturn : c ≠ '\r') (cs : List Char) :
    ∃ line rest, lines (c :: cs) = (c :: line) :: rest := by
  obtain ⟨before, last, split⟩ := exists_last_field '\n' cs
  cases before with
  | nil =>
    have whole : fields '\n' (c :: cs) = [] ++ [c :: last] := by
      rw [fields, fieldsBy, ← fields, split]
      simp [noFeed]
    exact ⟨last, [], by rw [lines_of_fields whole]; rfl⟩
  | cons first more =>
    have whole : fields '\n' (c :: cs) = (c :: first) :: more ++ [last] := by
      rw [fields, fieldsBy, ← fields, split]
      simp [noFeed]
    rw [lines_of_fields whole, List.map_cons, dropReturn_cons noReturn]
    exact ⟨_, _, rfl⟩

/-- Lines that are joined are found again; an empty one at the end is none. -/
theorem lines_join {before : List (List Char)} {last : List Char}
    (free : ∀ l ∈ before ++ [last], '\n' ∉ l) :
    lines (join ['\n'] (before ++ [last])) =
      before.map dropReturn ++ if last.isEmpty then [] else [last] :=
  lines_of_fields (fields_join (by simp) free)

end RepoAudit.Text
