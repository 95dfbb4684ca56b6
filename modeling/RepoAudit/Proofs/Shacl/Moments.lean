import RepoAudit.Proofs.Time.Stamps
import RepoAudit.Shacl.Validate

/-!
# Comparing times

Times are compared by their counts of nanoseconds in 64 bits. Two times are taken for the moments
that they tell exactly if both counts fit and have not lost what tells the moments apart.
-/

namespace RepoAudit.Shacl

open Rdf Time

section

variable {x y : Term} {α : Type} [LinearOrder α] {v w : α} (g : Graph)

/-- The bounds on a value that is compared to them are bounds on what it is compared as. -/
theorem admits_compared (compared : compareValues x y = some (compare v w)) :
    ((Constraint.minInclusive y).admits g x = true ↔ w ≤ v) ∧
    ((Constraint.maxInclusive y).admits g x = true ↔ v ≤ w) ∧
    ((Constraint.minExclusive y).admits g x = true ↔ w < v) ∧
    ((Constraint.maxExclusive y).admits g x = true ↔ v < w) := by
  simp only [Constraint.admits, inRange, compared]
  rw [← not_lt, ← not_lt, ← compare_lt_iff_lt, ← compare_gt_iff_gt]
  cases compare v w <;> decide

/-- No bound admits what cannot be compared to it. -/
theorem admits_incomparable (incomparable : compareValues x y = none) :
    (Constraint.minInclusive y).admits g x = false ∧
    (Constraint.maxInclusive y).admits g x = false ∧
    (Constraint.minExclusive y).admits g x = false ∧
    (Constraint.maxExclusive y).admits g x = false := by
  simp only [Constraint.admits, inRange, incomparable, and_self]

end

/-- Two values pass as times, and are compared and bounded like two moments. -/
structure TakenAs (x y : Term) (m n : ℤ ×ₗ ℚ) : Prop where
  first : hasDatatype x (xsd "dateTime") = true
  second : hasDatatype y (xsd "dateTime") = true
  order : compareValues x y = some (compare m n)
  least : ∀ g, (Constraint.minInclusive y).admits g x = true ↔ n ≤ m
  greatest : ∀ g, (Constraint.maxInclusive y).admits g x = true ↔ m ≤ n
  above : ∀ g, (Constraint.minExclusive y).admits g x = true ↔ n < m
  below : ∀ g, (Constraint.maxExclusive y).admits g x = true ↔ m < n

variable {a b : String} {s u : Stamp}

theorem dateTime?_writes (writes : s.Writes a.toList) (valid : s.Valid) :
    dateTime? a = if s.Fits then some s.count else none := by
  rw [dateTime?, rfc3339?_eq_some_iff.mpr ⟨s, writes, valid, rfl⟩]
  rfl

theorem hasDatatype_iff_fits (writes : s.Writes a.toList) (valid : s.Valid) :
    hasDatatype (.dateTime a) (xsd "dateTime") = true ↔ s.Fits := by
  have apart : xsd "dateTime" ≠ xsd "integer" ∧ xsd "dateTime" ≠ xsd "decimal" ∧
      xsd "dateTime" ≠ xsd "double" ∧ xsd "dateTime" ≠ xsd "boolean" := by decide
  simp [Term.dateTime, Term.typed, hasDatatype, isWellFormed, apart, dateTime?_writes writes valid]

theorem compareValues_writes (writes : s.Writes a.toList) (valid : s.Valid)
    (writes' : u.Writes b.toList) (valid' : u.Valid) :
    compareValues (.dateTime a) (.dateTime b) =
      if s.Fits ∧ u.Fits then some (compare s.count u.count) else none := by
  have numeric (text : String) : (Literal.mk text (xsd "dateTime") none).isNumeric = false := by
    change Rdf.isNumericDatatype (xsd "dateTime") = false
    decide
  simp only [compareValues, Term.dateTime, Term.typed, numeric, Bool.false_and, bne_self_eq_false,
    Option.isSome_none, Bool.or_false, Bool.false_eq_true, if_false, beq_self_eq_true, if_true,
    dateTime?_writes writes valid, dateTime?_writes writes' valid']
  by_cases fits : s.Fits <;> by_cases fits' : u.Fits <;> simp [fits, fits']

/-- Times pass as times, and are compared and bounded like their counts, if these fit; times are
taken for the moments that they tell exactly if in addition the counts still tell them apart. -/
theorem takenAs_iff (writes : s.Writes a.toList) (valid : s.Valid) (writes' : u.Writes b.toList)
    (valid' : u.Valid) :
    (TakenAs (.dateTime a) (.dateTime b) s.moment u.moment ↔
      (s.Fits ∧ u.Fits) ∧ ¬ s.Meets u ∧ ¬ u.Meets s ∧ ¬ s.Blurs u) ∧
    (hasDatatype (.dateTime a) (xsd "dateTime") = true ↔ s.Fits) ∧
    compareValues (.dateTime a) (.dateTime b) =
      (if s.Fits ∧ u.Fits then some (compare s.count u.count) else none) ∧
    ∀ g, let admitted (c : Term → Constraint) := (c (.dateTime b)).admits g (.dateTime a) = true
      (admitted .minInclusive ↔ (s.Fits ∧ u.Fits) ∧ u.count ≤ s.count) ∧
      (admitted .maxInclusive ↔ (s.Fits ∧ u.Fits) ∧ s.count ≤ u.count) ∧
      (admitted .minExclusive ↔ (s.Fits ∧ u.Fits) ∧ u.count < s.count) ∧
      (admitted .maxExclusive ↔ (s.Fits ∧ u.Fits) ∧ s.count < u.count) := by
  have compared := compareValues_writes writes valid writes' valid'
  have datatype := hasDatatype_iff_fits writes valid
  have datatype' := hasDatatype_iff_fits writes' valid'
  refine ⟨⟨fun taken => ?_, fun ⟨fits, apart⟩ => ?_⟩, datatype, compared, fun g => ?_⟩
  · have fits : s.Fits ∧ u.Fits := ⟨datatype.mp taken.first, datatype'.mp taken.second⟩
    rw [if_pos fits, taken.order] at compared
    exact ⟨fits, (Stamp.compare_count writes writes').mp (Option.some.inj compared).symm⟩
  · rw [if_pos fits, (Stamp.compare_count writes writes').mpr apart] at compared
    have bounds (g : Graph) := admits_compared g compared
    exact ⟨datatype.mpr fits.1, datatype'.mpr fits.2, compared, fun g => (bounds g).1,
      fun g => (bounds g).2.1, fun g => (bounds g).2.2.1, fun g => (bounds g).2.2.2⟩
  · by_cases fits : s.Fits ∧ u.Fits
    · rw [if_pos fits] at compared
      simpa only [fits, true_and] using admits_compared g compared
    · rw [if_neg fits] at compared
      simp only [admits_incomparable g compared, fits, false_and, Bool.false_eq_true, and_self]

/-- An hour before the turn of the year in one place it has already been in another. -/
theorem takenAs_newYear : ∃ s u : Stamp, s.Writes "2024-01-01T00:00:00+02:00".toList ∧
    u.Writes "2023-12-31T23:00:00Z".toList ∧
    TakenAs (.dateTime "2024-01-01T00:00:00+02:00") (.dateTime "2023-12-31T23:00:00Z")
      s.moment u.moment ∧ s.moment < u.moment := by
  have read : rfc3339? "2024-01-01T00:00:00+02:00".toList = some ⟨1704060000, 0⟩ := by
    decide +kernel
  have read' : rfc3339? "2023-12-31T23:00:00Z".toList = some ⟨1704063600, 0⟩ := by decide +kernel
  obtain ⟨s, writes, valid, same⟩ := rfc3339?_eq_some_iff.mp read
  obtain ⟨u, writes', valid', same'⟩ := rfc3339?_eq_some_iff.mp read'
  obtain ⟨seconds, nanos⟩ := Instant.mk.inj same
  obtain ⟨seconds', nanos'⟩ := Instant.mk.inj same'
  have taken := (takenAs_iff writes valid writes' valid').1.mpr
    (by unfold Stamp.Fits Stamp.Meets Stamp.Blurs Stamp.count; omega)
  have order : s.moment < u.moment := Prod.Lex.toLex_lt_toLex.mpr (.inl (by omega))
  exact ⟨s, u, writes, writes', taken, order⟩

/-- The count of an early time does not fit, so that the time does not even pass as one. -/
theorem not_takenAs_early : ∃ s : Stamp, s.Writes "1600-01-01T00:00:00Z".toList ∧ s.Valid ∧
    hasDatatype (.dateTime "1600-01-01T00:00:00Z") (xsd "dateTime") = false ∧
    ¬ TakenAs (.dateTime "1600-01-01T00:00:00Z") (.dateTime "1600-01-01T00:00:00Z") s.moment
      s.moment := by
  have read : rfc3339? "1600-01-01T00:00:00Z".toList = some ⟨-11676096000, 0⟩ := by decide +kernel
  obtain ⟨s, writes, valid, same⟩ := rfc3339?_eq_some_iff.mp read
  have refused : hasDatatype (.dateTime "1600-01-01T00:00:00Z") (xsd "dateTime") = false := by
    decide +kernel
  refine ⟨s, writes, valid, refused, fun taken => ?_⟩
  exact Bool.false_ne_true (refused.symm.trans taken.first)

end RepoAudit.Shacl
