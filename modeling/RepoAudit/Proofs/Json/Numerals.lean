import RepoAudit.Json.Document
import RepoAudit.Json.Printer

/-!
# Numbers read back

Every number that is written is a numeral of JSON, which is read up to its end. Whole numbers are
read as they were; what a number with a fraction is read as is left to its numeral.
-/

namespace RepoAudit.Json

open Decimal

/-! ### Digits -/

/-- One or more decimal digits. -/
def Digits (ds : List Char) : Prop := ds ≠ [] ∧ ∀ c ∈ ds, c.isDigit = true

theorem digits?_append {ds rest : List Char} (digits : Digits ds)
    (stop : ∀ c ∈ rest.head?, c.isDigit = false) : digits? (ds ++ rest) = some (ds, rest) := by
  obtain ⟨filled, digits⟩ := digits
  have taken : rest.takeWhile Char.isDigit = [] ∧ rest.dropWhile Char.isDigit = rest := by
    cases rest with
    | nil => exact ⟨rfl, rfl⟩
    | cons c more => simp [stop c rfl]
  rw [digits?, List.takeWhile_append_of_pos digits, List.dropWhile_append_of_pos digits, taken.1,
    taken.2, List.append_nil]
  simp [filled]

theorem digits_digits (n : Nat) : Digits (digits n) :=
  ⟨Nat.toDigits_ne_nil, fun _ => Nat.isDigit_of_mem_toDigits (by decide) (by decide)⟩

theorem natOfDigits_digits (n : Nat) : natOfDigits (digits n) = n :=
  Nat.ofDigitChars_toDigits (by decide) (by decide)

/-- Only zero begins with a zero. -/
theorem head_digits : ∀ n : Nat, (digits n).head? = some '0' → n = 0
  | n, zero => by
    rw [digits, Nat.toDigits_eq_if (by decide)] at zero
    split at zero
    · rename_i small
      have one : ∀ d < 10, [Nat.digitChar d].head? = some '0' → d = 0 := by decide
      exact one n small zero
    · rename_i large
      obtain ⟨c, more, written⟩ := List.exists_cons_of_ne_nil
        (Nat.toDigits_ne_nil (n := n / 10) (b := 10))
      have first : (digits (n / 10)).head? = some '0' := by
        rw [written] at zero
        rw [digits, written]
        exact zero
      have top := head_digits (n / 10) first
      omega
termination_by n => n
decreasing_by omega

/-! ### Numerals -/

namespace Numeral

/-- What may follow a sign, and a point or an exponent. -/
structure Proper (n : Numeral) : Prop where
  whole : Digits n.whole
  short : n.whole.head? = some '0' → n.whole.length = 1
  fraction : ∀ ds ∈ n.fraction, Digits ds
  exponent : ∀ e ∈ n.exponent, Digits e.2

def fractionText : Option (List Char) → List Char
  | some ds => '.' :: ds
  | none => []

def exponentText : Option (Bool × List Char) → List Char
  | some (minus, ds) => 'e' :: (if minus then '-' else '+') :: ds
  | none => []

/-- A numeral as it is written. -/
def text (n : Numeral) : List Char :=
  (if n.negative then ['-'] else []) ++
    (n.whole ++ (fractionText n.fraction ++ exponentText n.exponent))

end Numeral

/-- What stands behind a written value. -/
def Ends (rest : List Char) : Prop := ∀ c ∈ rest.head?, c = ',' ∨ c = '\n'

open Numeral

theorem whole?_append {ds rest : List Char} (digits : Digits ds)
    (short : ds.head? = some '0' → ds.length = 1) (stop : ∀ c ∈ rest.head?, c.isDigit = false) :
    whole? (ds ++ rest) = some (ds, rest) := by
  rw [whole?, digits?_append digits stop]
  exact if_neg fun ⟨zero, long⟩ => long (short zero)

theorem Ends.isDigit {rest : List Char} (ends : Ends rest) : ∀ c ∈ rest.head?, c.isDigit = false := by
  intro c first
  rcases ends c first with rfl | rfl <;> rfl

/-- No digit stands where an exponent may begin. -/
theorem exponentText_isDigit {rest : List Char} (ends : Ends rest) (e : Option (Bool × List Char)) :
    ∀ c ∈ (exponentText e ++ rest).head?, c.isDigit = false := by
  cases e with
  | none => exact ends.isDigit
  | some e =>
    rintro c ⟨rfl⟩
    rfl

theorem exponent?_text {e : Option (Bool × List Char)} (digits : ∀ d ∈ e, Digits d.2)
    {rest : List Char} (ends : Ends rest) : exponent? (exponentText e ++ rest) = some (e, rest) := by
  cases e with
  | none =>
    cases rest with
    | nil => rfl
    | cons c more => rcases ends c rfl with rfl | rfl <;> rfl
  | some e =>
    obtain ⟨minus, ds⟩ := e
    have read := digits?_append (digits _ rfl) ends.isDigit
    cases minus <;> simp [exponentText, exponent?, sign, read]

theorem fraction?_text {f : Option (List Char)} {e : Option (Bool × List Char)}
    (digits : ∀ ds ∈ f, Digits ds) {rest : List Char} (ends : Ends rest) :
    fraction? (fractionText f ++ (exponentText e ++ rest)) = some (f, exponentText e ++ rest) := by
  cases f with
  | none =>
    cases e with
    | none =>
      cases rest with
      | nil => rfl
      | cons c more => rcases ends c rfl with rfl | rfl <;> rfl
    | some e => rfl
  | some ds =>
    have read := digits?_append (digits _ rfl) (exponentText_isDigit ends e)
    simp [fractionText, fraction?, read]

theorem whole?_text {ds : List Char} {f : Option (List Char)} {e : Option (Bool × List Char)}
    (digits : Digits ds) (short : ds.head? = some '0' → ds.length = 1) {rest : List Char}
    (ends : Ends rest) : whole? (ds ++ (fractionText f ++ (exponentText e ++ rest))) =
      some (ds, fractionText f ++ (exponentText e ++ rest)) := by
  refine whole?_append digits short ?_
  cases f with
  | none => exact exponentText_isDigit ends e
  | some ds =>
    rintro c ⟨rfl⟩
    rfl

/-- A numeral is read up to its end. -/
theorem numeral?_text {n : Numeral} (proper : n.Proper) {rest : List Char} (ends : Ends rest) :
    numeral? (n.text ++ rest) = some (n, rest) := by
  obtain ⟨negative, whole, fraction, exponent⟩ := n
  obtain ⟨digits, short, digits', digits''⟩ := proper
  have signed : sign (text ⟨negative, whole, fraction, exponent⟩ ++ rest) = (negative,
      whole ++ (fractionText fraction ++ (exponentText exponent ++ rest))) := by
    cases negative with
    | true => simp [text, sign]
    | false =>
      obtain ⟨d, ds, rfl⟩ := List.exists_cons_of_ne_nil digits.1
      have other : d ≠ '-' := by
        rintro rfl
        exact absurd (digits.2 '-' (.head _)) (by decide)
      simp [text, sign, other]
  simp only [numeral?, signed, whole?_text digits short ends, fraction?_text digits' ends,
    exponent?_text digits'' ends, Option.bind_eq_bind, Option.bind_some]

/-! ### Whole numbers -/

/-- The numeral of an integer. -/
def intNumeral (n : Int) : Numeral := ⟨n < 0, digits n.natAbs, none, none⟩

theorem proper_intNumeral (n : Int) : (intNumeral n).Proper where
  whole := digits_digits n.natAbs
  short zero := by
    rw [intNumeral, head_digits _ zero]
    rfl
  fraction := nofun
  exponent := nofun

theorem intText_eq (n : Int) : intText n = (intNumeral n).text := by
  by_cases negative : n < 0 <;>
    simp [intText, intNumeral, text, fractionText, exponentText, negative]

/-! ### Numbers with a fraction -/

theorem digits_take {ds : List Char} (digits : Digits ds) {n : Nat} (some : n ≠ 0) :
    Digits (ds.take n) :=
  ⟨by simp [some, digits.1], fun c member => digits.2 c (List.mem_of_mem_take member)⟩

theorem digits_drop {ds : List Char} (digits : Digits ds) {n : Nat} (short : n < ds.length) :
    Digits (ds.drop n) :=
  ⟨by simpa using short, fun c member => digits.2 c (List.mem_of_mem_drop member)⟩

theorem digits_zero : Digits ['0'] := ⟨nofun, List.forall_mem_singleton.mpr rfl⟩

theorem isDigit_zeros {n : Nat} : ∀ c ∈ List.replicate n '0', c.isDigit = true := by
  intro c member
  rw [List.eq_of_mem_replicate member]
  rfl

theorem scientific_text {ds : List Char} (digits : Digits ds) (e : Int) :
    ∃ n : Numeral, n.negative = false ∧ n.Proper ∧ scientific ds e = n.text := by
  have fraction : ∀ fs ∈ (if ds.length ≤ 1 then none else some (ds.drop 1) : Option (List Char)),
      Digits fs := by
    intro fs written
    split at written
    · cases written
    · rename_i long
      obtain rfl := Option.some.inj written
      exact digits_drop digits (by omega)
  refine ⟨⟨false, ds.take 1, if ds.length ≤ 1 then none else some (ds.drop 1),
    some (e < 0, Decimal.digits e.natAbs)⟩, rfl, ⟨digits_take digits (by decide), ?_, fraction, ?_⟩, ?_⟩
  · have := List.length_pos_iff.mpr digits.1
    intro _
    rw [List.length_take]
    omega
  · rintro d ⟨rfl⟩
    exact digits_digits _
  · by_cases long : ds.length ≤ 1 <;> simp [scientific, text, fractionText, exponentText, long]

theorem floatDigits_text {ds : List Char} (digits : Digits ds) (first : ds.head? ≠ some '0')
    (point : Int) :
    ∃ n : Numeral, n.negative = false ∧ n.Proper ∧ floatDigits ds point = n.text := by
  unfold floatDigits
  split
  · exact scientific_text digits _
  have filled := List.length_pos_iff.mpr digits.1
  unfold positional
  by_cases below : point ≤ 0
  · have short : ¬ (ds.length : Int) ≤ point := by omega
    refine ⟨⟨false, ['0'], some (List.replicate (-point).toNat '0' ++ ds), none⟩, rfl,
      ⟨digits_zero, fun _ => rfl, ?_, nofun⟩, ?_⟩
    · rintro fs ⟨rfl⟩
      exact ⟨by simp [digits.1], List.forall_mem_append.mpr ⟨isDigit_zeros, digits.2⟩⟩
    · simp [text, fractionText, exponentText, below, short]
  have noZero {more : List Char} : (ds ++ more).head? = some '0' → (ds ++ more).length = 1 := by
    obtain ⟨d, rest, rfl⟩ := List.exists_cons_of_ne_nil digits.1
    exact fun zero => absurd zero first
  by_cases whole : (ds.length : Int) ≤ point
  · have whole' : ds.length ≤ point.toNat := by omega
    refine ⟨⟨false, ds ++ List.replicate (point.toNat - ds.length) '0', some ['0'], none⟩, rfl,
      ⟨⟨by simp [digits.1], List.forall_mem_append.mpr ⟨digits.2, isDigit_zeros⟩⟩, noZero, ?_, nofun⟩,
      ?_⟩
    · rintro fs ⟨rfl⟩
      exact digits_zero
    · simp [text, fractionText, exponentText, below, whole, whole']
  · have long : ¬ ds.length ≤ point.toNat := by omega
    refine ⟨⟨false, ds.take point.toNat, some (ds.drop point.toNat), none⟩, rfl,
      ⟨digits_take digits (by omega), fun zero => ?_, ?_, nofun⟩, ?_⟩
    · rw [List.head?_take, if_neg (by omega)] at zero
      exact absurd zero first
    · rintro fs ⟨rfl⟩
      exact digits_drop digits (by omega)
    · simp [text, fractionText, exponentText, below, whole, long]

/-- A finite number is written as a numeral. -/
theorem floatText_eq {x : Float} {b : Binary} (finite : Binary.ofFloat? x = some b) :
    ∃ n : Numeral, n.Proper ∧ floatText x = n.text := by
  obtain ⟨n, positive, proper, written⟩ : ∃ n : Numeral, n.negative = false ∧ n.Proper ∧
      (if (shortest b).digits = 0 then ['0', '.', '0']
        else floatDigits (digits (shortest b).digits)
          ((digits (shortest b).digits).length + (shortest b).exponent)) = n.text := by
    split
    · refine ⟨⟨false, ['0'], some ['0'], none⟩, rfl,
        ⟨digits_zero, fun _ => rfl, ?_, nofun⟩, rfl⟩
      rintro fs ⟨rfl⟩
      exact digits_zero
    · rename_i some
      exact floatDigits_text (digits_digits _) (fun zero => some (head_digits _ zero)) _
  refine ⟨{ n with negative := b.negative }, ⟨proper.1, proper.2, proper.3, proper.4⟩, ?_⟩
  simp only [floatText, finite, written]
  cases b.negative <;> simp [text, positive]

end RepoAudit.Json
