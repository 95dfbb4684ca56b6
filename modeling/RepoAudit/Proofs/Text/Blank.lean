import Mathlib
import RepoAudit.Text.Blank
import RepoAudit.Text.Letter

/-!
# Letters and numbers are not blank

The tables of letters and numbers have no code point in common with the table of blanks. A text with
no blank at its ends remains when blanks are cut off.
-/

namespace RepoAudit.Text

/-- Two stretches one of which ends before the other begins. -/
def Stretch.apart (a b : Stretch) : Bool := a.last < b.first || b.last < a.first

/-- Every stretch of one table is apart from every stretch of another. -/
def Stretch.allApart (as bs : List Stretch) : Bool := as.all fun a => bs.all a.apart

theorem hasChar_apart {as bs : List Stretch} {c : Char} (apart : Stretch.allApart as bs = true)
    (member : Stretch.hasChar as c = true) : Stretch.hasChar bs c = false := by
  obtain ⟨a, listed, within⟩ := List.any_eq_true.mp member
  refine List.any_eq_false.mpr fun b listed' within' => ?_
  have away := List.all_eq_true.mp (List.all_eq_true.mp apart a listed) b listed'
  simp only [Stretch.apart, Stretch.contains, Bool.or_eq_true, Bool.and_eq_true,
    decide_eq_true_eq] at away within within'
  omega

section Tables

set_option maxRecDepth 20000

theorem blanks_apart_letters : Stretch.allApart blanks (Category.members "L") = true := by
  have members : Category.members "L" =
      Category.lu ++ (Category.ll ++ (Category.lt ++ (Category.lm ++ Category.lo))) := by
    simp [Category.members, Category.all]
  rw [members, blanks, Category.lu, Category.ll, Category.lt, Category.lm, Category.lo]
  iterate 6 rw [stretches_ofList]
  decide +kernel

theorem blanks_apart_numbers : Stretch.allApart blanks numbers = true := by
  have members : numbers = Category.nd ++ (Category.nl ++ Category.no) := by
    simp [numbers, Category.members, Category.all]
  rw [members, blanks, Category.nd, Category.nl, Category.no]
  iterate 4 rw [stretches_ofList]
  decide +kernel

theorem blanks_apart_otherAlphabetic :
    Stretch.allApart blanks (Category.nl ++ otherAlphabetic) = true := by
  rw [blanks, Category.nl, otherAlphabetic]
  iterate 3 rw [stretches_ofList]
  decide +kernel

theorem blanks_apart_wordExtras : Stretch.allApart blanks wordExtras = true := by
  have marks : Category.members "M" = Category.mn ++ (Category.mc ++ Category.me) := by
    simp [Category.members, Category.all]
  rw [wordExtras, marks, blanks, Category.mn, Category.mc, Category.me, Category.nd, Category.pc]
  iterate 7 rw [stretches_ofList]
  decide +kernel

theorem blanks_eq : blanks = [⟨9, 13, 1⟩, ⟨0x20, 0x20, 1⟩, ⟨0x85, 0x85, 1⟩, ⟨0xA0, 0xA0, 1⟩,
    ⟨0x1680, 0x1680, 1⟩, ⟨0x2000, 0x200A, 1⟩, ⟨0x2028, 0x2029, 1⟩, ⟨0x202F, 0x202F, 1⟩,
    ⟨0x205F, 0x205F, 1⟩, ⟨0x3000, 0x3000, 1⟩] := by
  rw [blanks, stretches_ofList]
  decide +kernel

end Tables

theorem isBlank_ascii {c : Char} (ascii : c.toNat < 0x80) :
    isBlank c = true ↔ 9 ≤ c.toNat ∧ c.toNat ≤ 13 ∨ c.toNat = 32 := by
  simp only [isBlank, Stretch.hasChar, blanks_eq, List.any_cons, List.any_nil, Stretch.contains,
    Bool.or_eq_true, Bool.and_eq_true, decide_eq_true_eq, Bool.false_eq_true, or_false, beq_iff_eq]
  omega

theorem isAlphanum_iff {c : Char} : c.isAlphanum = true ↔
    ((65 ≤ c.toNat ∧ c.toNat ≤ 90) ∨ (97 ≤ c.toNat ∧ c.toNat ≤ 122)) ∨
      (48 ≤ c.toNat ∧ c.toNat ≤ 57) := by
  have codes (a b : Char) : a.val ≤ b.val ↔ a.toNat ≤ b.toNat := UInt32.le_iff_toNat_le
  simp only [Char.isAlphanum, Char.isAlpha, Char.isUpper, Char.isLower, Char.isDigit, ge_iff_le,
    codes, Bool.or_eq_true, Bool.and_eq_true, Bool.decide_and, decide_eq_true_eq]
  exact .rfl

theorem toNat_of_isAlphanum {c : Char} (letter : c.isAlphanum = true) : c.toNat < 0x80 := by
  rw [isAlphanum_iff] at letter
  omega

theorem isAlphanum_of_isBlank {c : Char} (ascii : c.toNat < 0x80) (blank : isBlank c = true) :
    c.isAlphanum = false := by
  have place := (isBlank_ascii ascii).mp blank
  rw [← Bool.not_eq_true, isAlphanum_iff]
  omega

theorem alphabetic_of_isBlank {c : Char} (blank : isBlank c = true) :
    Stretch.hasChar alphabetic c = false := by
  have letters := hasChar_apart blanks_apart_letters blank
  have others := hasChar_apart blanks_apart_otherAlphabetic blank
  rw [Text.alphabetic, List.append_assoc, Stretch.hasChar, List.any_append]
  exact Bool.or_eq_false_iff.mpr ⟨letters, others⟩

/-- No letter or number is blank. -/
theorem isAlphanumeric_of_isBlank {c : Char} (blank : isBlank c = true) :
    isAlphanumeric c = false := by
  unfold isAlphanumeric
  split
  · rename_i ascii
    exact isAlphanum_of_isBlank ascii blank
  · rw [alphabetic_of_isBlank blank, hasChar_apart blanks_apart_numbers blank]
    rfl

/-- No word holds a blank. -/
theorem isWord_of_isBlank {c : Char} (blank : isBlank c = true) : isWord c = false := by
  unfold isWord
  split
  · rename_i ascii
    have other : c ≠ '_' := by
      rintro rfl
      exact absurd ((isBlank_ascii ascii).mp blank) (by decide)
    rw [isAlphanum_of_isBlank ascii blank, beq_false_of_ne other, Bool.or_self]
  · rw [alphabetic_of_isBlank blank, hasChar_apart blanks_apart_wordExtras blank, Bool.or_self]

theorem code_of_isDigit {c : Char} (digit : c.isDigit = true) : 48 ≤ c.toNat ∧ c.toNat ≤ 57 := by
  simp only [Char.isDigit, Bool.and_eq_true, decide_eq_true_eq, ge_iff_le,
    UInt32.le_iff_toNat_le] at digit
  exact digit

theorem isBlank_of_isDigit {c : Char} (digit : c.isDigit = true) : isBlank c = false := by
  have code := code_of_isDigit digit
  rw [← Bool.not_eq_true, isBlank_ascii (by omega)]
  omega

/-! ### Texts without blanks at their ends -/

theorem trimStart_eq_self {cs : List Char} (filled : ∀ c ∈ cs.head?, isBlank c = false) :
    trimStart cs = cs := by
  cases cs with
  | nil => rfl
  | cons c rest => rw [trimStart, List.dropWhile_cons, filled c rfl, if_neg Bool.false_ne_true]

theorem trimEnd_eq_self {cs : List Char} (filled : ∀ c ∈ cs.getLast?, isBlank c = false) :
    trimEnd cs = cs := by
  rw [← List.head?_reverse] at filled
  rw [trimEnd, ← trimStart, trimStart_eq_self filled, List.reverse_reverse]

theorem trimEnd_eq_nil {cs : List Char} : trimEnd cs = [] ↔ ∀ c ∈ cs, isBlank c = true := by
  rw [trimEnd, List.reverse_eq_nil_iff, List.dropWhile_eq_nil_iff]
  simp only [List.mem_reverse]

theorem trim_eq_nil {cs : List Char} : trim cs = [] ↔ ∀ c ∈ cs, isBlank c = true := by
  rw [trim, trimEnd_eq_nil, trimStart]
  constructor
  · intro blank c member
    rw [← List.takeWhile_append_dropWhile (p := isBlank) (l := cs)] at member
    rcases List.mem_append.mp member with taken | dropped
    · exact List.mem_takeWhile_imp taken
    · exact blank c dropped
  · intro blank c member
    exact blank c (List.dropWhile_subset _ member)

theorem trim_eq_self {cs : List Char} (filled : ∀ c ∈ cs, isBlank c = false) : trim cs = cs := by
  rw [trim, trimStart_eq_self fun c first => filled c (List.mem_of_mem_head? first),
    trimEnd_eq_self fun c last => filled c (List.mem_of_mem_getLast? last)]

end RepoAudit.Text
