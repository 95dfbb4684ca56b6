import Mathlib.Data.List.Infix
import RepoAudit.Proofs.Text.Fields

/-!
# Words in texts

Where a word stands in a text that is put together from parts: it lies in one of two parts if the
character between them is not in the word, and it is found first where it does not overlap with an
earlier occurrence. Texts in which two slashes in a row become one.
-/

namespace RepoAudit.Text

variable {α : Type} {c : α} {word x y : List α}

theorem prefix_of_prefix_append_cons (absent : c ∉ word) (within : word <+: x ++ c :: y) :
    word <+: x := by
  have upTo : x ++ [c] <+: x ++ c :: y := ⟨y, by simp⟩
  rcases List.prefix_or_prefix_of_prefix within upTo with short | long
  · rcases List.prefix_concat_iff.mp short with rfl | short
    · simp at absent
    · exact short
  · exact absurd (long.subset (by simp)) absent

theorem infix_append_cons_iff (absent : c ∉ word) (filled : word ≠ []) :
    word <:+: x ++ c :: y ↔ word <:+: x ∨ word <:+: y := by
  induction x with
  | nil =>
    rw [List.nil_append, List.infix_cons_iff, List.infix_nil]
    refine or_congr_left ⟨fun first => ?_, fun empty => absurd empty filled⟩
    exact List.prefix_nil.mp (prefix_of_prefix_append_cons (x := []) absent first)
  | cons d rest ih =>
    rw [List.cons_append, List.infix_cons_iff, ih, List.infix_cons_iff, or_assoc]
    refine or_congr_left ⟨prefix_of_prefix_append_cons (x := d :: rest) absent, fun first => ?_⟩
    exact first.trans (List.prefix_append (d :: rest) (c :: y))

theorem suffix_append_cons_iff (absent : c ∉ word) : word <:+ x ++ c :: y ↔ word <:+ y := by
  refine ⟨fun within => ?_, fun within => within.trans ((List.suffix_cons c y).trans ?_)⟩
  · have turned : word.reverse <+: y.reverse ++ c :: x.reverse := by
      simpa using List.reverse_prefix.mpr within
    have absent : c ∉ word.reverse := by simpa using absent
    exact List.reverse_prefix.mp (prefix_of_prefix_append_cons absent turned)
  · exact List.suffix_append x (c :: y)

theorem cut?_eq_some_iff {sep : Char} {cs a b : List Char} :
    cut? sep cs = some (a, b) ↔ cs = a ++ sep :: b ∧ sep ∉ a := by
  refine ⟨fun found => ⟨eq_of_cut? found, ?_⟩, ?_⟩
  · induction cs generalizing a with
    | nil => cases found
    | cons c rest ih =>
      unfold cut? at found
      split at found
      · obtain ⟨rfl, rfl⟩ := Prod.mk.inj (Option.some.inj found)
        exact List.not_mem_nil
      · rename_i other
        obtain ⟨⟨a', b'⟩, later, same⟩ := Option.map_eq_some_iff.mp found
        obtain ⟨rfl, rfl⟩ := Prod.mk.inj same
        refine List.not_mem_cons_of_ne_of_not_mem ?_ (ih later)
        rintro rfl
        exact other (beq_self_eq_true _)
  · rintro ⟨rfl, absent⟩
    exact cut?_append absent b

theorem cut?_eq_none_iff {sep : Char} {cs : List Char} : cut? sep cs = none ↔ sep ∉ cs := by
  constructor
  · intro uncut inside
    obtain ⟨a, b, rfl, absent⟩ := List.eq_append_cons_of_mem inside
    rw [cut?_append absent b] at uncut
    cases uncut
  · intro absent
    cases found : cut? sep cs with
    | none => rfl
    | some parts =>
      rw [eq_of_cut? found] at absent
      simp at absent

/-- The first occurrence of a word: it does not overlap with an earlier one. -/
theorem cutWord?_append {word : List Char} (filled : word ≠ []) {a b : List Char}
    (first : ¬ word <:+: a ++ word.dropLast) : cutWord? word (a ++ (word ++ b)) = some (a, b) := by
  induction a with
  | nil =>
    obtain ⟨c, rest, rfl⟩ := List.exists_cons_of_ne_nil filled
    rw [List.nil_append, List.cons_append, cutWord?, ← List.cons_append, dropStart?_append]
  | cons c rest ih =>
    rw [List.cons_append, List.infix_cons_iff, not_or] at first
    have later : dropStart? word (c :: (rest ++ (word ++ b))) = none := by
      rw [dropStart?, if_neg]
      rw [List.isPrefixOf_iff_prefix]
      intro begins
      refine first.1 (List.prefix_of_prefix_length_le begins ⟨[word.getLast filled] ++ b, ?_⟩ ?_)
      · conv_rhs => rw [← List.dropLast_append_getLast filled]
        simp
      · have := List.length_pos_iff.mpr filled
        simp
        omega
    rw [List.cons_append, cutWord?, later, ih first.2]
    rfl

/-! ### Doubled slashes -/

/-- Each two slashes in a row become one. -/
def squeezed : List Char → List Char
  | '/' :: '/' :: rest => '/' :: squeezed rest
  | c :: rest => c :: squeezed rest
  | [] => []

theorem replaceWord_slashes (cs : List Char) : replaceWord ['/', '/'] ['/'] cs = squeezed cs := by
  unfold replaceWord
  fun_induction squeezed cs with
  | case1 rest ih => simp [replaceFrom, ih]
  | case2 c rest other ih =>
    have begins : ¬ ['/', '/'] <+: c :: rest := by
      rintro ⟨more, same⟩
      obtain ⟨rfl, rfl⟩ := List.cons.inj same
      exact other more rfl rfl
    rw [replaceFrom, if_neg (mt List.isPrefixOf_iff_prefix.mp begins), ih]
  | case3 => rfl

theorem count_squeezed {c : Char} (other : c ≠ '/') (cs : List Char) :
    (squeezed cs).count c = cs.count c := by
  fun_induction squeezed cs <;> simp_all [List.count_cons, Ne.symm other]

theorem length_squeezed_le (cs : List Char) : (squeezed cs).length ≤ cs.length := by
  fun_induction squeezed cs <;> simp <;> omega

/-- Texts without two slashes in a row stay as they are, others get shorter. -/
theorem length_squeezed_lt {cs : List Char} (doubled : ['/', '/'] <:+: cs) :
    (squeezed cs).length < cs.length := by
  fun_induction squeezed cs with
  | case1 rest _ =>
    have := length_squeezed_le rest
    simp
    omega
  | case2 c rest other ih =>
    rcases List.infix_cons_iff.mp doubled with ⟨more, same⟩ | later
    · obtain ⟨rfl, rfl⟩ := List.cons.inj same
      exact absurd rfl (other more rfl)
    · simpa using ih later
  | case3 => simp at doubled

theorem squeezed_of_plain {cs : List Char} (plain : ¬ ['/', '/'] <:+: cs) : squeezed cs = cs := by
  fun_induction squeezed cs with
  | case1 rest => exact absurd ⟨[], rest, rfl⟩ plain
  | case2 c rest other ih =>
    rw [ih fun later => plain (later.trans (List.infix_cons List.infix_rfl))]
  | case3 => rfl

theorem squeezed_double {x y : List Char} (plain : ¬ ['/', '/'] <:+: x ++ '/' :: y) :
    squeezed (x ++ '/' :: '/' :: y) = x ++ '/' :: y := by
  induction x with
  | nil =>
    rw [List.nil_append, squeezed, List.nil_append, squeezed_of_plain]
    exact fun later => plain (later.trans (List.infix_cons List.infix_rfl))
  | cons c rest ih =>
    have later : ¬ ['/', '/'] <:+: rest ++ '/' :: y :=
      fun within => plain (within.trans (List.infix_cons List.infix_rfl))
    rw [List.cons_append, squeezed, ih later]
    · rfl
    · rintro more rfl same
      refine plain ⟨[], ?_⟩
      cases rest with
      | nil => exact ⟨y, rfl⟩
      | cons d rest =>
        obtain ⟨rfl, -⟩ := List.cons.inj same
        exact ⟨rest ++ '/' :: y, rfl⟩

end RepoAudit.Text
