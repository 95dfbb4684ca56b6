/-!
# Instants

Dates of the Gregorian calendar are counted in days from 1 January 1970; a year before the first
has a number below one. An instant is a moment in universal time, to the nanosecond. During a leap
second the seconds stand still and the nanoseconds go on beyond a thousand million.
-/

namespace RepoAudit.Time

/-! ### Dates -/

def isLeapYear (year : Int) : Bool := year % 4 == 0 && (year % 100 != 0 || year % 400 == 0)

def daysInMonth (year : Int) (month : Nat) : Nat :=
  if month == 2 then if isLeapYear year then 29 else 28
  else if month == 4 || month == 6 || month == 9 || month == 11 then 30
  else 31

structure Date where
  year : Int
  month : Nat
  day : Nat
deriving DecidableEq, Repr

namespace Date

/-- The first and the last year that are supported. -/
def firstYear : Int := -262143
def lastYear : Int := 262142

/-- A date that the calendar has, in a supported year. -/
def make? (year : Int) (month day : Nat) : Option Date :=
  if firstYear ≤ year ∧ year ≤ lastYear ∧ 1 ≤ month ∧ month ≤ 12 ∧ 1 ≤ day ∧
      day ≤ daysInMonth year month then
    some ⟨year, month, day⟩
  else none

/-- Days from 1 January 1970. Years are counted from March, so that a leap day comes last. -/
def toDays (d : Date) : Int :=
  let year := if d.month ≤ 2 then d.year - 1 else d.year
  let era := year / 400
  let ofEra := year - era * 400
  let ofYear : Int := (153 * (((d.month + 9) % 12 : Nat) : Int) + 2) / 5 + d.day - 1
  let days := ofEra * 365 + ofEra / 4 - ofEra / 100 + ofYear
  era * 146097 + days - 719468

/-- The date a number of days after 1 January 1970. -/
def ofDays (n : Int) : Date :=
  let n := n + 719468
  let era := n / 146097
  let days := n - era * 146097
  let ofEra := (days - days / 1460 + days / 36524 - days / 146096) / 365
  let ofYear := days - (365 * ofEra + ofEra / 4 - ofEra / 100)
  let m := (5 * ofYear + 2) / 153
  let day := ofYear - (153 * m + 2) / 5 + 1
  let month := if m < 10 then m + 3 else m - 9
  let year := ofEra + era * 400
  ⟨if month ≤ 2 then year + 1 else year, month.toNat, day.toNat⟩

end Date

/-! ### Instants -/

structure Instant where
  /-- Seconds from the start of 1970. -/
  seconds : Int
  nanos : Nat
deriving DecidableEq, Repr, Inhabited

namespace Instant

/-- Nanoseconds from the start of 1970, if they fit into 64 bits with a sign. -/
def nanoseconds? (t : Instant) : Option Int :=
  let n := t.seconds * 1000000000 + t.nanos
  if -(Nat.pow 2 63 : Int) ≤ n ∧ n < Nat.pow 2 63 then some n else none

/-! ### Writing -/

/-- A number with at least `width` digits. -/
def padded (width n : Nat) : String :=
  let ds := toString n
  String.ofList (List.replicate (width - ds.length) '0') ++ ds

/-- A year with four digits; one outside of 0 to 9999 has a sign. -/
def yearText (year : Int) : String :=
  if 0 ≤ year ∧ year ≤ 9999 then padded 4 year.toNat
  else (if year < 0 then "-" else "+") ++ padded 4 year.natAbs

/-- The fraction of a second with three, six or nine digits, whichever suffices. -/
def fractionText (nanos : Nat) : String :=
  if nanos = 0 then ""
  else if nanos % 1000000 = 0 then "." ++ padded 3 (nanos / 1000000)
  else if nanos % 1000 = 0 then "." ++ padded 6 (nanos / 1000)
  else "." ++ padded 9 nanos

def date (t : Instant) : Date := .ofDays (t.seconds / 86400)

def dateText (t : Instant) : String :=
  let d := t.date
  yearText d.year ++ "-" ++ padded 2 d.month ++ "-" ++ padded 2 d.day

/-- Hours, minutes and seconds; a leap second is the sixtieth. -/
def timeText (t : Instant) : String :=
  let s := (t.seconds % 86400).toNat
  padded 2 (s / 3600) ++ ":" ++ padded 2 (s / 60 % 60) ++ ":" ++
    padded 2 (s % 60 + t.nanos / 1000000000)

/-- The form of RFC 3339, with `mark` for universal time. -/
def rfc3339With (mark : String) (t : Instant) : String :=
  t.dateText ++ "T" ++ t.timeText ++ fractionText (t.nanos % 1000000000) ++ mark

/-- With the offset of universal time. -/
def rfc3339 (t : Instant) : String := t.rfc3339With "+00:00"

/-- With the letter for universal time. -/
def rfc3339Zulu (t : Instant) : String := t.rfc3339With "Z"

/-- For readers: date and time to the second. -/
def readable (t : Instant) : String := t.dateText ++ " " ++ t.timeText ++ " UTC"

end Instant
end RepoAudit.Time
