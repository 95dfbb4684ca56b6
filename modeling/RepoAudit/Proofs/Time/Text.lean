import RepoAudit.Proofs.Json.Numerals
import RepoAudit.Proofs.Time.Calendar
import RepoAudit.Time.Reader

/-!
# Times read back

An instant of a year with four digits is written in the form of RFC 3339 and read back as it was.
-/

namespace RepoAudit.Time

open Decimal

/-! ### Numbers of a fixed width -/

/-- A number as it is written with a fixed count of digits. -/
structure Written (width n : Nat) (ds : List Char) : Prop where
  length : ds.length = width
  digits : ∀ c ∈ ds, c.isDigit = true
  value : natOfDigits ds = n

theorem natOfDigits_zeros (k : Nat) (ds : List Char) :
    natOfDigits (List.replicate k '0' ++ ds) = natOfDigits ds := by
  induction k with
  | zero => rfl
  | succ k ih => exact ih

namespace Instant

theorem written_padded {width n : Nat} (positive : 0 < width) (small : n < 10 ^ width) :
    Written width n (padded width n).toList := by
  have digits : (padded width n).toList =
      List.replicate (width - (digits n).length) '0' ++ digits n := by
    simp [padded, Decimal.digits, toString, Nat.repr]
  have short : (Decimal.digits n).length ≤ width :=
    (Nat.length_toDigits_le_iff (by decide) positive).mpr small
  rw [digits]
  refine ⟨by simp [short], List.forall_mem_append.mpr ⟨?_, (Json.digits_digits n).2⟩, ?_⟩
  · intro c member
    rw [List.eq_of_mem_replicate member]
    decide
  · rw [natOfDigits_zeros, Json.natOfDigits_digits]

end Instant

/-! ### Steps of reading -/

namespace Read

/-- Digits are read up to another character, or as far as they are allowed to reach. -/
theorem digits_append {least most : Nat} {ds rest : List Char} (digits : ∀ c ∈ ds, c.isDigit = true)
    (enough : least ≤ ds.length) (fits : ds.length ≤ most)
    (stop : ds.length < most → ∀ c ∈ rest.head?, c.isDigit = false) :
    (Read.digits least most).run (ds ++ rest) = some (ds, rest) := by
  have nothing : (rest.take (most - ds.length)).takeWhile Char.isDigit = [] := by
    by_cases full : ds.length = most
    · simp [full]
    · cases rest with
      | nil => simp
      | cons c more =>
        have other := stop (by omega) c rfl
        obtain ⟨k, more'⟩ : ∃ k, most - ds.length = k + 1 := ⟨most - ds.length - 1, by omega⟩
        simp [more', other]
  have taken : ((ds ++ rest).take most).takeWhile Char.isDigit = ds := by
    rw [List.take_append, List.take_of_length_le fits, List.takeWhile_append_of_pos digits, nothing,
      List.append_nil]
  simp only [Read.digits, StateT.run_bind, StateT.run_get, Option.pure_def, Option.bind_eq_bind,
    Option.bind_some, taken, Nat.not_lt.mpr enough, if_false]
  simp

theorem number_written {width n : Nat} {ds : List Char} (written : Written width n ds)
    (rest : List Char) : (number width width).run (ds ++ rest) = some (n, rest) := by
  obtain ⟨rfl, digits, value⟩ := written
  rw [number, StateT.run_bind, digits_append digits le_rfl le_rfl fun less => absurd less (by simp)]
  simp [value]

theorem char_cons (c : Char) (rest : List Char) : (char c).run (c :: rest) = some ((), rest) := by
  simp [char]

theorem dateTimeMark_cons (rest : List Char) :
    dateTimeMark.run ('T' :: rest) = some ((), rest) := by
  simp [dateTimeMark]

theorem fraction_written {width n : Nat} {ds rest : List Char} (written : Written width n ds)
    (positive : 0 < width) (small : width ≤ 9) (stop : ∀ c ∈ rest.head?, c.isDigit = false) :
    fraction.run ('.' :: (ds ++ rest)) = some (n * 10 ^ (9 - width), rest) := by
  obtain ⟨rfl, digits, value⟩ := written
  have read : (Read.digits 1 9).run (ds ++ rest) = some (ds, rest) :=
    digits_append digits positive small fun _ => stop
  have kept : rest.dropWhile Char.isDigit = rest := by
    cases rest with
    | nil => rfl
    | cons c more => simp [stop c rfl]
  simp [fraction, read, kept, value]

theorem fraction_other {c : Char} {rest : List Char} (other : c ≠ '.') :
    fraction.run (c :: rest) = some (0, c :: rest) := by
  simp [fraction, other]

theorem offset_zero : (offset (char ':')).run ['+', '0', '0', ':', '0', '0'] = some (0, []) := by
  decide +kernel

end Read

/-! ### Instants -/

namespace Instant

/-- An instant of which the nanoseconds go on beyond a second only at the end of a minute. -/
structure Valid (t : Instant) : Prop where
  nanos : t.nanos < 2000000000
  leap : 1000000000 ≤ t.nanos → t.seconds % 60 = 59

theorem fraction_fractionText {n : Nat} (small : n < 1000000000) {c : Char} (rest : List Char)
    (other : c ≠ '.') (stop : c.isDigit = false) :
    Read.fraction.run ((fractionText n).toList ++ c :: rest) = some (n, c :: rest) := by
  have stops : ∀ d ∈ (c :: rest).head?, d.isDigit = false := fun d first => by
    obtain rfl := Option.some.inj first
    exact stop
  have read {width k : Nat} (positive : 0 < width) (fits : width ≤ 9) (less : k < 10 ^ width) :
      Read.fraction.run (("." ++ padded width k).toList ++ c :: rest) =
        some (k * 10 ^ (9 - width), c :: rest) := by
    have point : ".".toList = ['.'] := rfl
    rw [String.toList_append, point, List.append_assoc, List.singleton_append]
    exact Read.fraction_written (written_padded positive less) positive fits stops
  unfold fractionText
  split
  · rename_i zero
    rw [zero]
    exact Read.fraction_other other
  split
  · rw [read (by decide) (by decide) (by omega)]
    congr 2
    omega
  split
  · rw [read (by decide) (by decide) (by omega)]
    congr 2
    omega
  · rw [read (by decide) (by decide) (by omega)]
    congr 2
    omega

/-- The numbers of an instant make up the instant. -/
theorem instant?_parts {t : Instant} (valid : t.Valid)
    (year : 0 ≤ t.date.year ∧ t.date.year ≤ 9999) :
    instant? t.date.year t.date.month t.date.day
      ⟨(t.seconds % 86400).toNat / 3600, (t.seconds % 86400).toNat / 60 % 60,
        (t.seconds % 86400).toNat % 60 + t.nanos / 1000000000, t.nanos % 1000000000⟩ 0 = some t := by
  obtain ⟨month, day⟩ := Date.valid_ofDays (t.seconds / 86400)
  have made : Date.make? t.date.year t.date.month t.date.day = some t.date :=
    if_pos ⟨year.1.trans' (by decide), year.2.trans (by decide), month.1, month.2, day.1, day.2⟩
  have days : t.date.toDays = t.seconds / 86400 := Date.toDays_ofDays _
  have inRange : -96465292 * 86400 ≤ t.seconds ∧ t.seconds < 95026237 * 86400 := by
    obtain ⟨y, ofYear, low, high, count, same⟩ := Date.exists_year (t.seconds / 86400)
    change t.date.year = y ∨ t.date.year = y + 1 at same
    omega
  have first : (Date.mk Date.firstYear 1 1).toDays = -96465292 := by decide
  have last : (Date.mk Date.lastYear 12 31).toDays = 95026236 := by decide
  have nanos := valid.nanos
  have leap := valid.leap
  have parts {seconds : Int} {nanos : Nat} (sameSeconds : seconds = t.seconds)
      (sameNanos : nanos = t.nanos) : some (Instant.mk seconds nanos) = some t := by
    rw [sameSeconds, sameNanos]
  clear month day
  unfold instant?
  simp only [made, days, first, last, Option.bind_eq_bind, Option.bind_some]
  rw [if_neg (by omega)]
  by_cases beyond : (t.seconds % 86400).toNat % 60 + t.nanos / 1000000000 = 60
  · simp only [beyond, if_true]
    rw [if_pos (by omega)]
    exact parts (by omega) (by omega)
  · simp only [beyond, if_false]
    rw [if_pos (by omega)]
    exact parts (by omega) (by omega)

/-- What is written of an instant is read back as it. -/
theorem rfc3339?_rfc3339 {t : Instant} (valid : t.Valid)
    (year : 0 ≤ t.date.year ∧ t.date.year ≤ 9999) : rfc3339? t.rfc3339.toList = some t := by
  obtain ⟨month, day⟩ := Date.valid_ofDays (t.seconds / 86400)
  change 1 ≤ t.date.month ∧ t.date.month ≤ 12 at month
  change 1 ≤ t.date.day ∧ t.date.day ≤ daysInMonth t.date.year t.date.month at day
  have days : daysInMonth t.date.year t.date.month ≤ 31 := by
    unfold daysInMonth
    split
    · split <;> decide
    · split <;> decide
  have nanos := valid.nanos
  have text : t.rfc3339.toList = (padded 4 t.date.year.toNat).toList ++ '-' ::
      ((padded 2 t.date.month).toList ++ '-' :: ((padded 2 t.date.day).toList ++ 'T' ::
        ((padded 2 ((t.seconds % 86400).toNat / 3600)).toList ++ ':' ::
          ((padded 2 ((t.seconds % 86400).toNat / 60 % 60)).toList ++ ':' ::
            ((padded 2 ((t.seconds % 86400).toNat % 60 + t.nanos / 1000000000)).toList ++
              ((fractionText (t.nanos % 1000000000)).toList ++
                ['+', '0', '0', ':', '0', '0'])))))) := by
    simp [rfc3339, rfc3339With, dateText, timeText, yearText, year]
  have two {n : Nat} (small : n < 100) : Written 2 n (padded 2 n).toList :=
    written_padded (by decide) small
  have ofYear : Written 4 t.date.year.toNat (padded 4 t.date.year.toNat).toList :=
    written_padded (by decide) (by omega)
  have ofMonth := two (by omega : t.date.month < 100)
  have ofDay := two (by omega : t.date.day < 100)
  have ofHour := two (by omega : (t.seconds % 86400).toNat / 3600 < 100)
  have ofMinute := two (by omega : (t.seconds % 86400).toNat / 60 % 60 < 100)
  have ofSecond := two
    (by omega : (t.seconds % 86400).toNat % 60 + t.nanos / 1000000000 < 100)
  have ofFraction := fraction_fractionText (by omega : t.nanos % 1000000000 < 1000000000)
    ['0', '0', ':', '0', '0'] (by decide : '+' ≠ '.') (by decide)
  have whole : (t.date.year.toNat : Int) = t.date.year := Int.toNat_of_nonneg year.1
  have read : strictInstant.run t.rfc3339.toList = some (some t, []) := by
    rw [text, strictInstant]
    simp only [StateT.run_bind, Option.bind_eq_bind, Option.bind_some, Read.char_cons,
      Read.dateTimeMark_cons, Read.number_written ofYear, Read.number_written ofMonth,
      Read.number_written ofDay, Read.number_written ofHour, Read.number_written ofMinute,
      Read.number_written ofSecond, ofFraction, Read.offset_zero, whole, instant?_parts valid year]
    rfl
  rw [rfc3339?, whole?, read]
  rfl

end Instant

end RepoAudit.Time
