import RepoAudit.Proofs.Decimal.Bounds
import RepoAudit.Proofs.Json.Numerals
import RepoAudit.Proofs.Text.Blank
import RepoAudit.Report.Facts
import RepoAudit.Shacl.Validate

/-!
# Counts and shares as values

A count is written with digits, so that it is a well-formed integer, and it is read as a number that
is compared with the bounds zero and one as the count is.
-/

namespace RepoAudit.Shacl

open Rdf Decimal

/-! ### Digits -/

theorem toLower_of_isDigit {c : Char} (digit : c.isDigit = true) : c.toLower = c := by
  have code := Text.code_of_isDigit digit
  rw [Char.toLower, dif_neg]
  rintro ⟨above, -⟩
  have : 65 ≤ c.toNat := UInt32.le_iff_toNat_le.mp above
  omega

section Digits

variable {ds : List Char} (digits : Json.Digits ds)
include digits

theorem trim_digits : Text.trim ds = ds :=
  Text.trim_eq_self fun c member => Text.isBlank_of_isDigit (digits.2 c member)

theorem unsigned?_digits : unsigned? ds = some (nearestFloat (natOfDigits ds) 0) := by
  have taken : ds.takeWhile Char.isDigit = ds := List.takeWhile_eq_self_iff.mpr digits.2
  have dropped : ds.dropWhile Char.isDigit = [] := List.dropWhile_eq_nil_iff.mpr digits.2
  simp [unsigned?, taken, dropped, digits.1]

theorem float?_digits : Decimal.float? ds = some (nearestFloat (natOfDigits ds) 0) := by
  have read := unsigned?_digits digits
  obtain ⟨filled, each⟩ := digits
  obtain ⟨c, rest, rfl⟩ := List.exists_cons_of_ne_nil filled
  have first : c.isDigit = true := each c (.head _)
  have other (d : Char) (letter : d.isDigit = false) : c ≠ d := by
    rintro rfl
    rw [letter] at first
    cases first
  -- neither a sign nor a word begins with a digit
  have noWord (d : Char) (more : List Char) (letter : d.isDigit = false) :
      (String.ofList ((c :: rest).map Char.toLower) == String.ofList (d :: more)) = false := by
    rw [List.map_cons, toLower_of_isDigit first, beq_eq_false_iff_ne, ne_eq, String.ofList_inj]
    exact fun same => other d letter (List.cons.inj same).1
  have infinity := noWord 'i' ['n', 'f'] (by decide)
  have infinity' := noWord 'i' ['n', 'f', 'i', 'n', 'i', 't', 'y'] (by decide)
  have undefined' := noWord 'n' ['a', 'n'] (by decide)
  unfold Decimal.float?
  split
  rename_i negative body parts
  have unsigned : (negative, body) = (false, c :: rest) := by
    rw [← parts]
    split
    · rename_i same
      exact absurd (List.cons.inj same).1 (other '-' (by decide))
    · rename_i same
      exact absurd (List.cons.inj same).1 (other '+' (by decide))
    · rfl
  obtain ⟨rfl, rfl⟩ := Prod.mk.inj unsigned
  change Option.map _ (if (_ == String.ofList ['i', 'n', 'f'] || _ == String.ofList
    ['i', 'n', 'f', 'i', 'n', 'i', 't', 'y']) = true then _ else
      if (_ == String.ofList ['n', 'a', 'n']) = true then _ else _) = _
  rw [infinity, infinity', undefined', read]
  rfl

end Digits

/-! ### Counts -/

/-- What is written of a count. -/
def shownCount (n : Nat) : Nat := min n (2 ^ 63 - 1)

theorem count_eq (n : Nat) : Report.count n =
    .typed (String.ofList (digits (shownCount n))) (xsd "integer") := by
  have shown : min (n : Int) (((Nat.pow 2 63 : Nat) : Int) - 1) = (shownCount n : Nat) := by
    have power : ((Nat.pow 2 63 : Nat) : Int) = 2 ^ 63 := by decide
    rw [power, shownCount]
    omega
  rw [Report.count, shown, Term.integer]
  rfl

theorem integer_isNumeric : isNumericDatatype (xsd "integer") = true := by decide +kernel

theorem float?_integer {ds : List Char} (written : Json.Digits ds) :
    (Term.typed (String.ofList ds) (xsd "integer")).float? =
      some (nearestFloat (natOfDigits ds) 0) := by
  simp only [Term.float?, Term.typed, Term.literal?, Option.bind_some, Literal.float?,
    Literal.isNumeric, integer_isNumeric, if_true, String.toList_ofList, trim_digits written,
    float?_digits written]

theorem float?_count (n : Nat) :
    (Report.count n).float? = some (nearestFloat (shownCount n) 0) := by
  rw [count_eq, float?_integer (Json.digits_digits _), Json.natOfDigits_digits]

theorem hasDatatype_count (n : Nat) : hasDatatype (Report.count n) (xsd "integer") = true := by
  obtain ⟨filled, each⟩ := Json.digits_digits (shownCount n)
  have unsigned : unsigned (digits (shownCount n)) = digits (shownCount n) := by
    unfold Shacl.unsigned
    split
    · rename_i same
      rw [same] at each
      exact absurd (each '+' (.head _)) (by decide)
    · rename_i same
      rw [same] at each
      exact absurd (each '-' (.head _)) (by decide)
    · rfl
  have integer : isInteger (String.ofList (digits (shownCount n))) = true := by
    simp only [isInteger, String.toList_ofList, unsigned, Bool.and_eq_true, Bool.not_eq_true',
      List.isEmpty_eq_false_iff, List.all_eq_true]
    exact ⟨filled, each⟩
  rw [count_eq]
  simp [Term.typed, hasDatatype, isWellFormed, integer]

/-! ### Numbers in range -/

theorem compareFloats_of_bounded {x y : Float} {k l : Int} (bounded : Bounded k x)
    (bounded' : Bounded l y) : compareFloats x y = some (compare (rankOf x) (rankOf y)) := by
  have less := bounded.lt_iff bounded'
  have greater := bounded'.lt_iff bounded
  have equal := bounded.beq_iff bounded'
  unfold compareFloats
  rcases lt_trichotomy (rankOf x) (rankOf y) with below | same | above
  · rw [if_pos (less.mpr below), Nat.compare_eq_lt.mpr below]
  · rw [if_neg (mt less.mp (by omega)), if_neg (mt greater.mp (by omega)), if_pos (equal.mpr same),
      Nat.compare_eq_eq.mpr same]
  · rw [if_neg (mt less.mp (by omega)), if_pos (greater.mpr above), Nat.compare_eq_gt.mpr above]

/-- A number of one numeric datatype is in range of a bound of another one by their places in the
order. -/
theorem inRange_of_rank {v bound datatype : String} {datatype' : String} {x y : Float} {k l : Int}
    {accepted : List Ordering} (numeric : isNumericDatatype datatype = true)
    (numeric' : isNumericDatatype datatype' = true) (read : (Term.typed v datatype).float? = some x)
    (read' : (Term.typed bound datatype').float? = some y) (bounded : Bounded k x)
    (bounded' : Bounded l y) (accepts : compare (rankOf x) (rankOf y) ∈ accepted) :
    inRange (.typed v datatype) (.typed bound datatype') accepted = true := by
  have compared : compareValues (.typed v datatype) (.typed bound datatype') =
      compareFloats x y := by
    simp only [Term.float?, Term.typed, Term.literal?, Option.bind_some] at read read'
    simp only [compareValues, Term.typed, Literal.isNumeric, numeric, numeric', Bool.and_self,
      if_true, read, read']
    rfl
  rw [inRange, compared, compareFloats_of_bounded bounded bounded']
  exact List.contains_iff_mem.mpr accepts

/-! ### Bounds of counts -/

theorem nearestFloat_count {n : Nat} (positive : 0 < n) (small : n < 2 ^ 63) :
    nearestFloat n 0 = Float.ofScientific n false 0 := by
  have size : ((Nat.log2 n + 1) * 30103 / 100000 : Nat) < 400 := by
    have := (Nat.log2_lt positive.ne').mpr small
    omega
  rw [nearestFloat, if_neg positive.ne', if_neg (by omega), if_neg (by omega), if_pos (by decide)]
  simp

/-- A count is read as zero, or as a number that is not below one. -/
theorem float_count (n : Nat) : ∃ x, (Report.count n).float? = some x ∧ Bounded 12 x ∧
    (0 < n → rankOf 1.0 ≤ rankOf x) := by
  refine ⟨_, float?_count n, ?_⟩
  by_cases zero : n = 0
  · subst zero
    exact ⟨by decide +kernel, fun positive => absurd positive (by decide)⟩
  · have positive : 0 < shownCount n := by
      unfold shownCount
      omega
    have small : shownCount n < 2 ^ 63 := by
      unfold shownCount
      omega
    have whole := whole_ofScientific positive (small.trans (by decide))
    rw [nearestFloat_count positive small]
    exact ⟨whole.within, fun _ => whole.one_le⟩

theorem float?_zero : (Term.typed "0" (xsd "integer")).float? = some 0.0 := by decide +kernel

theorem float?_one : (Term.typed "1" (xsd "integer")).float? = some 1.0 := by decide +kernel

theorem bounded_one : Bounded (-52) 1.0 := by decide +kernel

theorem compare_of_ge {m n : Nat} (le : n ≤ m) : compare m n ∈ [.gt, .eq] := by
  rcases Nat.lt_or_eq_of_le le with less | rfl
  · simp [Nat.compare_eq_gt.mpr less]
  · simp

theorem compare_of_le {m n : Nat} (le : m ≤ n) : compare m n ∈ [.lt, .eq] := by
  rcases Nat.lt_or_eq_of_le le with less | rfl
  · simp [Nat.compare_eq_lt.mpr less]
  · simp

theorem count_atLeast_zero (n : Nat) :
    inRange (Report.count n) (.typed "0" (xsd "integer")) [.gt, .eq] = true := by
  obtain ⟨x, read, bounded, -⟩ := float_count n
  rw [count_eq] at read ⊢
  exact inRange_of_rank integer_isNumeric integer_isNumeric read float?_zero bounded
    (bounded_zero 0) (compare_of_ge (Nat.zero_le _))

theorem count_atLeast_one {n : Nat} (positive : 0 < n) :
    inRange (Report.count n) (.typed "1" (xsd "integer")) [.gt, .eq] = true := by
  obtain ⟨x, read, bounded, above⟩ := float_count n
  rw [count_eq] at read ⊢
  exact inRange_of_rank integer_isNumeric integer_isNumeric read float?_one bounded bounded_one
    (compare_of_ge (above positive))

/-! ### Shares -/

/-- A share that is written as a decimal between zero and one. -/
structure ShownInUnit (x : Float) : Prop where
  wellFormed : isDecimal (Term.decimal x).lexical = true
  inUnit : ∃ y, (Term.decimal x).float? = some y ∧ 0.0 ≤ y ∧ y ≤ 1.0

theorem shownInUnit_iff {x : Float} : ShownInUnit x ↔ isDecimal (Term.decimal x).lexical = true ∧
    ((Term.decimal x).float?.any fun y => decide (0.0 ≤ y) && decide (y ≤ 1.0)) = true := by
  simp only [Option.any_eq_true, Bool.and_eq_true, decide_eq_true_eq]
  exact ⟨fun ⟨wellFormed, inUnit⟩ => ⟨wellFormed, inUnit⟩,
    fun ⟨wellFormed, inUnit⟩ => ⟨wellFormed, inUnit⟩⟩

instance : DecidablePred ShownInUnit := fun _ => decidable_of_iff _ shownInUnit_iff.symm

section Shares

variable {x : Float} (shown : ShownInUnit x)
include shown

theorem ShownInUnit.hasDatatype : hasDatatype (.decimal x) (xsd "decimal") = true := by
  have wellFormed := shown.wellFormed
  simp only [Term.decimal, Term.typed, Term.lexical] at wellFormed
  have apart : xsd "decimal" ≠ xsd "integer" := by decide
  simp only [Term.decimal, Term.typed, Shacl.hasDatatype, isWellFormed, beq_iff_eq, apart, if_false,
    if_true, wellFormed, beq_self_eq_true, Bool.and_self]

theorem ShownInUnit.inRange :
    inRange (.decimal x) (.typed "0" (xsd "integer")) [.gt, .eq] = true ∧
      inRange (.decimal x) (.typed "1" (xsd "integer")) [.lt, .eq] = true := by
  obtain ⟨y, read, nonneg, le⟩ := shown.inUnit
  have bounded := bounded_of_nonneg nonneg (isFinite_of_le_one nonneg le)
  have decimal_isNumeric : isNumericDatatype (xsd "decimal") = true := by decide +kernel
  rw [Term.decimal] at read ⊢
  exact ⟨inRange_of_rank decimal_isNumeric integer_isNumeric read float?_zero bounded
      (bounded_zero 0) (compare_of_ge (Nat.zero_le _)),
    inRange_of_rank decimal_isNumeric integer_isNumeric read float?_one bounded bounded_one
      (compare_of_le ((bounded.le_iff bounded_one).mp le))⟩

end Shares

end RepoAudit.Shacl
