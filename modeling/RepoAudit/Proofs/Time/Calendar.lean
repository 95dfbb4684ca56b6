import Mathlib.Tactic.IntervalCases
import RepoAudit.Time.Instant

/-!
# The calendar

Four hundred years are four centuries of a day less than a cycle of leap years would have, except for
the last one. From the century, the cycle in it and the day in that one the date of a day is found,
and the day is found again from its date.
-/

namespace RepoAudit.Time.Date

/-! ### Days of four hundred years -/

/-- A day of four hundred years from March on, by its century, the cycle of four years in that and
the day in the cycle. Of the centuries only the last ends with a leap day. -/
structure Cycle where
  century : Int
  cycle : Int
  rest : Int
  century_mem : 0 ≤ century ∧ century ≤ 3
  cycle_mem : 0 ≤ cycle ∧ cycle ≤ 24
  rest_mem : 0 ≤ rest ∧ rest ≤ 1460
  short : cycle = 24 → century < 3 → rest ≤ 1459

namespace Cycle

/-- The day, counted from the start of the four hundred years. -/
def day (c : Cycle) : Int := 36524 * c.century + 1461 * c.cycle + c.rest

/-- The year in the cycle. -/
def inCycle (c : Cycle) : Int := min (c.rest / 365) 3

/-- The year, counted from the start of the four hundred years. -/
def year (c : Cycle) : Int := 100 * c.century + 4 * c.cycle + c.inCycle

/-- The day of the year. -/
def ofYear (c : Cycle) : Int := c.rest - 365 * c.inCycle

theorem exists_day {d : Int} (low : 0 ≤ d) (high : d ≤ 146096) : ∃ c : Cycle, c.day = d := by
  refine ⟨⟨min (d / 36524) 3, (d - 36524 * min (d / 36524) 3) / 1461,
    (d - 36524 * min (d / 36524) 3) % 1461, by omega, by omega, by omega, by omega⟩, ?_⟩
  simp only [day]
  omega

variable (c : Cycle)

/-- The correction for leap days finds the year of a day. -/
theorem year_eq : (c.day - c.day / 1460 + c.day / 36524 - c.day / 146096) / 365 = c.year := by
  obtain ⟨century, cycle, rest, hc, hk, hr, short⟩ := c
  simp only [year, inCycle]
  generalize same : day ⟨century, cycle, rest, hc, hk, hr, short⟩ = d
  replace same : 36524 * century + 1461 * cycle + rest = d := same
  have lastDay : d / 146096 = if century = 3 ∧ cycle = 24 ∧ rest = 1460 then 1 else 0 := by
    split <;> omega
  have centuries : d / 36524 = century + d / 146096 := by
    rw [lastDay]
    split <;> omega
  have cycles : d / 1460 =
      25 * century + cycle + if 1460 ≤ cycle + rest + 24 * century then 1 else 0 := by
    split <;> omega
  have total : d - d / 1460 + d / 36524 - d / 146096 = 365 * (100 * century + 4 * cycle) +
      (rest - if 1460 ≤ cycle + rest + 24 * century then 1 else 0) := by
    rw [centuries, cycles]
    split <;> omega
  rw [total]
  split <;> omega

theorem year_mem : 0 ≤ c.year ∧ c.year ≤ 399 := by
  have := c.century_mem
  have := c.cycle_mem
  have := c.rest_mem
  unfold year inCycle
  omega

theorem ofYear_mem : 0 ≤ c.ofYear ∧ c.ofYear ≤ 365 := by
  have := c.rest_mem
  unfold ofYear inCycle
  omega

/-- The days up to a year, and the day of the year. -/
theorem day_eq : 365 * c.year + c.year / 4 - c.year / 100 + c.ofYear = c.day := by
  have := c.century_mem
  have := c.cycle_mem
  have := c.rest_mem
  have inCycle : 0 ≤ c.inCycle ∧ c.inCycle ≤ 3 := by
    unfold Cycle.inCycle
    omega
  have fourths : c.year / 4 = 25 * c.century + c.cycle := by
    unfold year
    omega
  have hundredths : c.year / 100 = c.century := by
    unfold year
    omega
  rw [fourths, hundredths]
  unfold year ofYear day
  omega

/-- Only the year before a leap year has another day. -/
theorem isLeapYear_of_ofYear (last : c.ofYear = 365) (era : Int) :
    isLeapYear (c.year + era * 400 + 1) = true := by
  obtain ⟨century, cycle, rest, hc, hk, hr, short⟩ := c
  simp only [ofYear, inCycle] at last
  simp only [isLeapYear, year, inCycle, Bool.and_eq_true, Bool.or_eq_true, beq_iff_eq, bne_iff_ne]
  omega

end Cycle

/-! ### Dates of days -/

/-- A date that the calendar has. -/
structure Valid (d : Date) : Prop where
  month : 1 ≤ d.month ∧ d.month ≤ 12
  day : 1 ≤ d.day ∧ d.day ≤ daysInMonth d.year d.month

/-- The date of a day of the year from March on. -/
def inYear (year ofYear : Int) : Date :=
  let m := (5 * ofYear + 2) / 153
  let month := if m < 10 then m + 3 else m - 9
  ⟨if month ≤ 2 then year + 1 else year, month.toNat, (ofYear - (153 * m + 2) / 5 + 1).toNat⟩

theorem exists_cycle (n : Int) : ∃ (era : Int) (c : Cycle),
    n + 719468 = era * 146097 + c.day ∧ ofDays n = inYear (c.year + era * 400) c.ofYear := by
  obtain ⟨c, day⟩ := Cycle.exists_day (d := n + 719468 - (n + 719468) / 146097 * 146097)
    (by omega) (by omega)
  refine ⟨(n + 719468) / 146097, c, by omega, ?_⟩
  have ofYear : c.day - (365 * c.year + c.year / 4 - c.year / 100) = c.ofYear := by
    have := c.day_eq
    omega
  simp only [ofDays, ← day, c.year_eq, ofYear, inYear]

theorem valid_inYear {year ofYear : Int} (low : 0 ≤ ofYear) (high : ofYear ≤ 365)
    (leap : ofYear = 365 → isLeapYear (year + 1) = true) : (inYear year ofYear).Valid := by
  generalize month : (5 * ofYear + 2) / 153 = m
  have first : 0 ≤ m := by omega
  have last : m ≤ 11 := by omega
  simp only [inYear, month]
  -- only the length of February depends on the year
  rcases Int.lt_or_eq_of_le last with earlier | rfl
  · replace last : m ≤ 10 := by omega
    interval_cases m <;> refine ⟨by simp, ?_⟩ <;> simp [daysInMonth] <;> omega
  · refine ⟨by simp, ?_⟩
    simp only [daysInMonth, Int.reduceLT, if_false, Int.reduceSub, Int.reduceLE, if_true,
      Int.reduceToNat, Nat.reduceBEq]
    split
    · omega
    · rename_i common
      have := mt leap common
      omega

theorem toDays_inYear {year ofYear : Int} (low : 0 ≤ ofYear) (high : ofYear ≤ 365) :
    (inYear year ofYear).toDays = year / 400 * 146097 +
      ((year - year / 400 * 400) * 365 + (year - year / 400 * 400) / 4 -
        (year - year / 400 * 400) / 100 + ofYear) - 719468 := by
  generalize month : (5 * ofYear + 2) / 153 = m
  have first : 0 ≤ m := by omega
  have last : m ≤ 11 := by omega
  simp only [inYear, month, toDays]
  interval_cases m <;> simp <;> omega

/-- Every day has a date of the calendar. -/
theorem valid_ofDays (n : Int) : (ofDays n).Valid := by
  obtain ⟨era, c, -, date⟩ := exists_cycle n
  rw [date]
  exact valid_inYear c.ofYear_mem.1 c.ofYear_mem.2 fun last => c.isLeapYear_of_ofYear last era

/-- A day is found again from its date. -/
theorem toDays_ofDays (n : Int) : (ofDays n).toDays = n := by
  obtain ⟨era, c, count, date⟩ := exists_cycle n
  have inEra := c.year_mem
  have eras : (c.year + era * 400) / 400 = era := by omega
  have day := c.day_eq
  rw [date, toDays_inYear c.ofYear_mem.1 c.ofYear_mem.2, eras]
  have years : c.year + era * 400 - era * 400 = c.year := by omega
  rw [years]
  omega

/-- The days up to a year from March on, which is the year of a date or the one before. -/
theorem exists_year (n : Int) : ∃ year ofYear : Int, 0 ≤ ofYear ∧ ofYear ≤ 365 ∧
    n + 719468 = 365 * year + year / 4 - year / 100 + year / 400 + ofYear ∧
    ((ofDays n).year = year ∨ (ofDays n).year = year + 1) := by
  obtain ⟨era, c, count, date⟩ := exists_cycle n
  have inEra := c.year_mem
  have day := c.day_eq
  refine ⟨c.year + era * 400, c.ofYear, c.ofYear_mem.1, c.ofYear_mem.2, by omega, ?_⟩
  rw [date, inYear]
  exact (ite_eq_or_eq _ _ _).symm

end RepoAudit.Time.Date
