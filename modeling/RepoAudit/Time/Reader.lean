import RepoAudit.Decimal.Reader
import RepoAudit.Text.Blank
import RepoAudit.Time.Instant

/-!
# Reading times

Three forms are read: RFC 3339 to the letter, a relaxed form of it in which blanks may stand
between the parts, and dates and times without an offset.
-/

namespace RepoAudit.Time

/-- A step of reading a time. -/
abbrev Read := StateT (List Char) Option

namespace Read

def fail {α : Type} : Read α := fun _ => none

def skipBlanks : Read Unit := modify fun cs => cs.dropWhile Text.isBlank

def char (c : Char) : Read Unit := do
  match ← get with
  | d :: rest => if c == d then set rest else fail
  | [] => fail

/-- Reads at least `least` and at most `most` digits. -/
def digits (least most : Nat) : Read (List Char) := do
  let cs ← get
  let ds := (cs.take most).takeWhile Char.isDigit
  if ds.length < least then fail
  set (cs.drop ds.length)
  return ds

def number (least most : Nat) : Read Nat := return Decimal.natOfDigits (← digits least most)

/-- Reads a number of one or two digits behind blanks. -/
def field : Read Nat := do
  skipBlanks
  number 1 2

/-- Reads a year of up to four digits, or of any number of them behind a sign, behind blanks. -/
def year : Read Int := do
  skipBlanks
  match ← get with
  | '-' :: rest =>
    set rest
    return -(← number 1 rest.length : Nat)
  | '+' :: rest =>
    set rest
    return (← number 1 rest.length : Nat)
  | _ => return (← number 1 4 : Nat)

/-- Reads the fraction of a second as nanoseconds, if there is one; digits after the ninth do not
count. -/
def fraction : Read Nat := do
  match ← get with
  | '.' :: rest =>
    set rest
    let ds ← digits 1 9
    modify fun cs => cs.dropWhile Char.isDigit
    return Decimal.natOfDigits ds * Nat.pow 10 (9 - ds.length)
  | _ => return 0

/-- Reads the offset from universal time in minutes. -/
def offset (separator : Read Unit) : Read Int := do
  match ← get with
  | [] => fail
  | c :: rest =>
    set rest
    if c == 'Z' || c == 'z' then return 0
    else if c == '+' || c == '-' || c == '\u2212' then
      let hours ← number 2 2
      separator
      let minutes ← number 2 2
      if minutes > 59 then fail
      let size : Int := hours * 60 + minutes
      if size ≥ 24 * 60 then fail
      return if c == '+' then size else -size
    else fail

/-- Reads the letter or blank between date and time. -/
def dateTimeMark : Read Unit := do
  match ← get with
  | c :: rest => if c == 'T' || c == 't' || c == ' ' then set rest else fail
  | [] => fail

end Read

/-- A time of day as it is written. -/
structure Clock where
  hour : Nat
  minute : Nat
  second : Nat
  nanos : Nat

/-- The instant of a date and a time of day at an offset in minutes. The sixtieth second is a leap
second. -/
def instant? (year : Int) (month day : Nat) (c : Clock) (offset : Int) : Option Instant := do
  let date ← Date.make? year month day
  if c.hour > 23 ∨ c.minute > 59 ∨ c.second > 60 then none
  let (second, leap) := if c.second = 60 then (59, 1000000000) else (c.second, 0)
  let seconds := date.toDays * 86400 + c.hour * 3600 + c.minute * 60 + second - offset * 60
  let first := (Date.mk Date.firstYear 1 1).toDays * 86400
  let last := ((Date.mk Date.lastYear 12 31).toDays + 1) * 86400
  if first ≤ seconds ∧ seconds < last then some ⟨seconds, c.nanos + leap⟩ else none

/-- Runs a step over a whole text. -/
def whole? {α : Type} (r : Read α) (cs : List Char) : Option α := do
  let (a, rest) ← r.run cs
  if rest.isEmpty then some a else none

open Read

def strictInstant : Read (Option Instant) := do
  let y ← number 4 4
  char '-'
  let m ← number 2 2
  char '-'
  let d ← number 2 2
  dateTimeMark
  let hour ← number 2 2
  char ':'
  let minute ← number 2 2
  char ':'
  let second ← number 2 2
  let nanos ← fraction
  let off ← offset (char ':')
  return instant? y m d ⟨hour, minute, second, nanos⟩ off

/-- Reads RFC 3339. -/
def rfc3339? (cs : List Char) : Option Instant := (whole? strictInstant cs).join

/-- Reads a character that blanks may precede. -/
def Read.spacedChar (c : Char) : Read Unit := do
  skipBlanks
  char c

/-- Reads a date with blanks allowed before its parts. -/
def Read.looseDate : Read (Int × Nat × Nat) := do
  let y ← year
  spacedChar '-'
  let m ← field
  spacedChar '-'
  let d ← field
  return (y, m, d)

def relaxedInstant : Read (Option Instant) := do
  let (y, m, d) ← looseDate
  dateTimeMark
  let hour ← field
  spacedChar ':'
  let minute ← field
  spacedChar ':'
  let second ← field
  let nanos ← fraction
  skipBlanks
  let cs ← get
  let off ← if (cs.take 3).map Char.toUpper == ['U', 'T', 'C'] then do
      set (cs.drop 3)
      pure 0
    else offset (modify fun cs => cs.dropWhile fun c => c == ':' || Text.isBlank c)
  skipBlanks
  return instant? y m d ⟨hour, minute, second, nanos⟩ off

/-- Reads the relaxed form of RFC 3339. -/
def relaxed? (cs : List Char) : Option Instant := (whole? relaxedInstant cs).join

/-- Reads a date, blanks before whose numbers do not count, as its first instant. -/
def Read.plainDate : Read (Int × Nat × Nat) := do
  let y ← year
  char '-'
  let m ← field
  char '-'
  let d ← field
  return (y, m, d)

def date? (cs : List Char) : Option Instant := do
  let (y, m, d) ← whole? plainDate cs
  instant? y m d ⟨0, 0, 0, 0⟩ 0

def localInstant : Read (Option Instant) := do
  let (y, m, d) ← plainDate
  char 'T'
  let hour ← field
  char ':'
  let minute ← field
  char ':'
  let second ← field
  let nanos ← fraction
  return instant? y m d ⟨hour, minute, second, nanos⟩ 0

/-- Reads a date and a time without an offset, taken as universal time. -/
def local? (cs : List Char) : Option Instant := (whole? localInstant cs).join

end RepoAudit.Time
