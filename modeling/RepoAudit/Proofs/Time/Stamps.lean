import Mathlib.Data.Prod.Lex
import Mathlib.Data.Rat.Floor
import Mathlib.Tactic.Ring
import RepoAudit.Proofs.Text.Blank
import RepoAudit.Proofs.Time.Text

/-!
# What times tell

A text in the form of RFC 3339 tells a day, a time of day with any number of digits behind the
second, and an offset. The reader accepts a text exactly if there is such a time, and takes it for
the instant of that time, cut off behind the ninth digit.

A time tells a moment; a moment is counted in nanoseconds from the start of 1970. The count loses
what lies below a nanosecond, it has no place for leap seconds, and in 64 bits it reaches from 1677
to 2262. Apart from that it is in the order of the moments.
-/

namespace RepoAudit.Time

open Decimal

/-! ### Digits -/

theorem foldl_digits (ds : List Char) (n : Nat) :
    ds.foldl (fun n c => 10 * n + (c.toNat - '0'.toNat)) n =
      n * 10 ^ ds.length + natOfDigits ds := by
  induction ds generalizing n with
  | nil => simp [natOfDigits]
  | cons c ds ih =>
    rw [natOfDigits, List.foldl_cons, List.foldl_cons, ih, ih, List.length_cons]
    ring

theorem natOfDigits_append (ds es : List Char) :
    natOfDigits (ds ++ es) = natOfDigits ds * 10 ^ es.length + natOfDigits es := by
  rw [natOfDigits, List.foldl_append]
  exact foldl_digits es _

theorem natOfDigits_lt {ds : List Char} (digits : ∀ c ∈ ds, c.isDigit = true) :
    natOfDigits ds < 10 ^ ds.length := by
  induction ds with
  | nil => exact Nat.one_pos
  | cons c ds ih =>
    obtain ⟨first, others⟩ := List.forall_mem_cons.mp digits
    have small : c.toNat - '0'.toNat ≤ 9 := by
      have range := Text.code_of_isDigit first
      change c.toNat - 48 ≤ 9
      omega
    have rest := ih others
    have parts : natOfDigits (c :: ds) =
        (c.toNat - '0'.toNat) * 10 ^ ds.length + natOfDigits ds := by
      rw [natOfDigits, List.foldl_cons, foldl_digits, Nat.mul_zero, Nat.zero_add]
    have scaled := Nat.mul_le_mul_right (10 ^ ds.length) small
    rw [parts, List.length_cons, Nat.pow_succ]
    omega

/-- The nanoseconds of a fraction of a second. -/
def nanosOf (ds : List Char) : Nat := natOfDigits ds * 10 ^ 9 / 10 ^ ds.length

/-- The first nine digits of a fraction of a second are its nanoseconds. -/
theorem nanosOf_take {ds : List Char} (digits : ∀ c ∈ ds, c.isDigit = true) :
    natOfDigits (ds.take 9) * 10 ^ (9 - (ds.take 9).length) = nanosOf ds := by
  have positive : 0 < 10 ^ ds.length := Nat.pow_pos (by decide)
  rcases Nat.le_total ds.length 9 with short | long
  · rw [List.take_of_length_le short, nanosOf]
    have split : 10 ^ 9 = 10 ^ (9 - ds.length) * 10 ^ ds.length := by
      rw [← Nat.pow_add, Nat.sub_add_cancel short]
    rw [split, ← Nat.mul_assoc, Nat.mul_div_cancel _ positive]
  · have first : (ds.take 9).length = 9 := by rw [List.length_take]; omega
    have others := natOfDigits_lt fun c member => digits c (List.mem_of_mem_drop (i := 9) member)
    have all := natOfDigits_append (ds.take 9) (ds.drop 9)
    have length : 10 ^ ds.length = 10 ^ (ds.drop 9).length * 10 ^ 9 := by
      rw [← Nat.pow_add, List.length_drop, Nat.sub_add_cancel long]
    rw [List.take_append_drop] at all
    rw [first, nanosOf, all, length, Nat.mul_div_mul_right _ _ (by decide), Nat.add_comm,
      Nat.add_mul_div_right _ _ (Nat.pow_pos (by decide)), Nat.div_eq_of_lt others, Nat.zero_add,
      Nat.sub_self, Nat.pow_zero, Nat.mul_one]

theorem nanosOf_lt {ds : List Char} (digits : ∀ c ∈ ds, c.isDigit = true) :
    nanosOf ds < 1000000000 := by
  have less := natOfDigits_lt digits
  rw [nanosOf, Nat.div_lt_iff_lt_mul (Nat.pow_pos (by decide)), Nat.mul_comm]
  exact Nat.mul_lt_mul_of_pos_left less (by decide)

/-! ### The parts of a text -/

/-- A fraction is written by its digits behind a point; without digits nothing is written. -/
inductive WritesFraction : List Char → List Char → Prop where
  | none : WritesFraction [] []
  | some {ds : List Char} (digits : ∀ c ∈ ds, c.isDigit = true) (filled : ds ≠ []) :
    WritesFraction ds ('.' :: ds)

theorem WritesFraction.digits {ds text : List Char} (writes : WritesFraction ds text) :
    ∀ c ∈ ds, c.isDigit = true := by
  cases writes with
  | none => nofun
  | some digits => exact digits

/-- An offset in minutes is written by a letter for none, or by a sign, hours and minutes. -/
inductive WritesOffset : Int → List Char → Prop where
  | zulu {c : Char} (letter : c = 'Z' ∨ c = 'z') : WritesOffset 0 [c]
  | signed {c : Char} {hours minutes : Nat} {hs ms : List Char}
    (sign : c = '+' ∨ c = '-' ∨ c = '\u2212') (hour : Written 2 hours hs)
    (minute : Written 2 minutes ms) (day : hours ≤ 23) (below : minutes ≤ 59) :
    WritesOffset (if c == '+' then hours * 60 + minutes else -(hours * 60 + minutes))
      (c :: (hs ++ ':' :: ms))

theorem WritesOffset.exists_cons {o : Int} {text : List Char} (writes : WritesOffset o text) :
    ∃ c rest, text = c :: rest ∧ c ≠ '.' ∧ c.isDigit = false := by
  cases writes with
  | zulu letter => rcases letter with rfl | rfl <;> exact ⟨_, _, rfl, by decide, by decide⟩
  | signed sign => rcases sign with rfl | rfl | rfl <;> exact ⟨_, _, rfl, by decide, by decide⟩

/-- Offsets are below a day. -/
theorem WritesOffset.lt {o : Int} {text : List Char} (writes : WritesOffset o text) :
    -1440 < o ∧ o < 1440 := by
  cases writes with
  | zulu => decide
  | signed _ _ _ day below => split <;> omega

namespace Read

variable {α β : Type}

theorem exists_of_bind {m : Read α} {f : α → Read β} {cs : List Char} {r : β × List Char}
    (read : (m >>= f).run cs = some r) :
    ∃ a rest, m.run cs = some (a, rest) ∧ (f a).run rest = some r := by
  rw [StateT.run_bind] at read
  obtain ⟨⟨a, rest⟩, ran, read⟩ := Option.bind_eq_some_iff.mp read
  exact ⟨a, rest, ran, read⟩

/-- What follows a step that has been read. -/
theorem run_bind_some {m : Read α} {cs rest : List Char} {a : α} (ran : m.run cs = some (a, rest))
    (f : α → Read β) : (m >>= f).run cs = (f a).run rest := by
  rw [StateT.run_bind, ran]
  rfl

theorem digits_eq_some {least most : Nat} {cs ds rest : List Char}
    (read : (digits least most).run cs = some (ds, rest)) :
    ds = (cs.take most).takeWhile Char.isDigit ∧ least ≤ ds.length ∧ rest = cs.drop ds.length := by
  simp only [digits, StateT.run_bind, StateT.run_get, Option.pure_def, Option.bind_eq_bind,
    Option.bind_some] at read
  split at read
  · cases read
  next enough =>
    obtain ⟨rfl, rfl⟩ := Prod.mk.inj (Option.some.inj read)
    exact ⟨rfl, Nat.le_of_not_lt enough, rfl⟩

theorem number_eq_some_iff {width n : Nat} {cs rest : List Char} :
    (number width width).run cs = some (n, rest) ↔ ∃ ds, Written width n ds ∧ cs = ds ++ rest := by
  constructor
  · intro read
    rw [number, StateT.run_bind] at read
    obtain ⟨⟨ds, left⟩, ran, read⟩ := Option.bind_eq_some_iff.mp read
    obtain ⟨rfl, rfl⟩ := Prod.mk.inj (Option.some.inj read)
    obtain ⟨found, enough, rfl⟩ := digits_eq_some ran
    have front : ds <+: cs.take width := found ▸ List.takeWhile_prefix _
    have all : ds = cs.take width := front.eq_of_length_le ((List.length_take_le _ _).trans enough)
    have length : ds.length = width :=
      Nat.le_antisymm (all ▸ List.length_take_le _ _) enough
    refine ⟨ds, ⟨length, fun c member => ?_, rfl⟩, ?_⟩
    · rw [found] at member
      exact List.mem_takeWhile_imp member
    · rw [length]
      exact (List.take_append_drop width cs).symm.trans (congrArg (· ++ _) all.symm)
  · rintro ⟨ds, written, rfl⟩
    exact number_written written rest

theorem char_eq_some_iff {c : Char} {cs rest : List Char} :
    (char c).run cs = some ((), rest) ↔ cs = c :: rest := by
  cases cs with
  | nil => exact ⟨nofun, nofun⟩
  | cons d more =>
    change (if c == d then set more else fail : Read Unit).run (d :: more) = _ ↔ _
    split
    next same =>
      obtain rfl := eq_of_beq same
      exact ⟨fun | rfl => rfl, fun | rfl => rfl⟩
    next other =>
      exact ⟨nofun, fun same => absurd (beq_iff_eq.mpr (List.cons.inj same).1.symm) other⟩

theorem number_of_bind {width : Nat} {f : Nat → Read β} {cs : List Char} {r : β × List Char}
    (read : (number width width >>= f).run cs = some r) :
    ∃ n ds rest, Written width n ds ∧ cs = ds ++ rest ∧ (f n).run rest = some r := by
  obtain ⟨n, rest, ran, read⟩ := exists_of_bind read
  obtain ⟨ds, written, same⟩ := number_eq_some_iff.mp ran
  exact ⟨n, ds, rest, written, same, read⟩

theorem char_of_bind {c : Char} {f : Unit → Read β} {cs : List Char} {r : β × List Char}
    (read : (char c >>= f).run cs = some r) : ∃ rest, cs = c :: rest ∧ (f ()).run rest = some r := by
  obtain ⟨_, rest, ran, read⟩ := exists_of_bind read
  exact ⟨rest, char_eq_some_iff.mp ran, read⟩

theorem dateTimeMark_eq_some_iff {cs rest : List Char} :
    dateTimeMark.run cs = some ((), rest) ↔
      ∃ c, (c = 'T' ∨ c = 't' ∨ c = ' ') ∧ cs = c :: rest := by
  cases cs with
  | nil => exact ⟨nofun, nofun⟩
  | cons d more =>
    change (if d == 'T' || d == 't' || d == ' ' then set more else fail : Read Unit).run
      (d :: more) = _ ↔ _
    split
    next mark =>
      simp only [Bool.or_eq_true, beq_iff_eq, or_assoc] at mark
      refine ⟨fun ran => ⟨d, mark, ?_⟩, fun ⟨_, _, same⟩ => ?_⟩
      · rw [(Prod.mk.inj (Option.some.inj ran)).2]
      · rw [(List.cons.inj same).2]
        rfl
    next other =>
      simp only [Bool.or_eq_true, beq_iff_eq, or_assoc] at other
      exact ⟨nofun, fun ⟨_, mark, same⟩ => absurd ((List.cons.inj same).1 ▸ mark) other⟩

/-- What is done behind the point of a fraction. -/
theorem fraction_point (rest : List Char) : fraction.run ('.' :: rest) = (do
    let ds ← digits 1 9
    modify fun cs => cs.dropWhile Char.isDigit
    return natOfDigits ds * Nat.pow 10 (9 - ds.length) : Read Nat).run rest := rfl

theorem fraction_digits {ds rest : List Char} (digits : ∀ c ∈ ds, c.isDigit = true)
    (filled : ds ≠ []) (stop : ∀ c ∈ rest.head?, c.isDigit = false) :
    fraction.run ('.' :: (ds ++ rest)) = some (nanosOf ds, rest) := by
  have some := List.length_pos_iff.mpr filled
  have ends : (ds.take 9).length < 9 → ∀ c ∈ (ds.drop 9 ++ rest).head?, c.isDigit = false := by
    intro short
    rw [List.length_take] at short
    rwa [List.drop_eq_nil_of_le (by omega), List.nil_append]
  have read : (Read.digits 1 9).run (ds.take 9 ++ (ds.drop 9 ++ rest)) =
      Option.some (ds.take 9, ds.drop 9 ++ rest) :=
    digits_append (fun c member => digits c (List.mem_of_mem_take member))
      (by rw [List.length_take]; omega) (List.length_take_le _ _) ends
  rw [← List.append_assoc, List.take_append_drop] at read
  have skipped : (ds.drop 9 ++ rest).dropWhile Char.isDigit = rest := by
    rw [List.dropWhile_append_of_pos fun c member => digits c (List.mem_of_mem_drop member)]
    cases rest with
    | nil => rfl
    | cons c more => rw [List.dropWhile_cons, if_neg (by rw [stop c rfl]; decide)]
  rw [fraction_point, StateT.run_bind, read]
  change Option.some (natOfDigits (ds.take 9) * 10 ^ (9 - (ds.take 9).length),
    (ds.drop 9 ++ rest).dropWhile Char.isDigit) = _
  rw [nanosOf_take digits, skipped]

theorem fraction_eq_some {n : Nat} {cs rest : List Char} (read : fraction.run cs = some (n, rest)) :
    ∃ ds text, WritesFraction ds text ∧ cs = text ++ rest ∧ n = nanosOf ds := by
  rcases cs with _ | ⟨c, more⟩
  · obtain ⟨rfl, rfl⟩ := Prod.mk.inj (Option.some.inj read)
    exact ⟨[], [], .none, rfl, rfl⟩
  by_cases point : c = '.'
  · subst point
    let ds := more.takeWhile Char.isDigit
    have digits : ∀ c ∈ ds, c.isDigit = true := fun c member => List.mem_takeWhile_imp member
    have filled : ds ≠ [] := by
      rw [fraction_point, StateT.run_bind] at read
      obtain ⟨⟨es, left⟩, ran, -⟩ := Option.bind_eq_some_iff.mp read
      obtain ⟨rfl, enough, -⟩ := digits_eq_some ran
      cases more with
      | nil => cases enough
      | cons c more =>
        cases digit : c.isDigit with
        | true => simp [ds, digit]
        | false =>
          rw [List.take_succ_cons, List.takeWhile_cons_of_neg (by simp [digit])] at enough
          cases enough
    have stop : ∀ c ∈ (more.dropWhile Char.isDigit).head?, c.isDigit = false := by
      intro c first
      have other := List.head?_dropWhile_not Char.isDigit more
      rw [first] at other
      exact other
    have again := fraction_digits digits filled stop
    rw [List.takeWhile_append_dropWhile, read] at again
    obtain ⟨rfl, rfl⟩ := Prod.mk.inj (Option.some.inj again)
    refine ⟨ds, '.' :: ds, .some digits filled, ?_, rfl⟩
    rw [List.cons_append, List.takeWhile_append_dropWhile]
  · rw [fraction_other point] at read
    obtain ⟨rfl, rfl⟩ := Prod.mk.inj (Option.some.inj read)
    exact ⟨[], [], .none, rfl, rfl⟩

theorem fraction_writes {ds text : List Char} {c : Char} (writes : WritesFraction ds text)
    (point : c ≠ '.') (stop : c.isDigit = false) (rest : List Char) :
    fraction.run (text ++ c :: rest) = some (nanosOf ds, c :: rest) := by
  cases writes with
  | none => exact fraction_other point
  | some digits filled =>
    refine fraction_digits digits filled fun d first => ?_
    obtain rfl := Option.some.inj first
    exact stop

theorem offset_signed {sign : Char} (signed : sign = '+' ∨ sign = '-' ∨ sign = '\u2212')
    (more : List Char) : (offset (char ':')).run (sign :: more) = (do
      let hours ← number 2 2
      char ':'
      let minutes ← number 2 2
      if minutes > 59 then fail
      let size : Int := hours * 60 + minutes
      if size ≥ 24 * 60 then fail
      return if sign == '+' then size else -size : Read Int).run more := by
  rcases signed with rfl | rfl | rfl <;> rfl

theorem offset_eq_some {o : Int} {cs rest : List Char}
    (read : (offset (char ':')).run cs = some (o, rest)) :
    ∃ text, WritesOffset o text ∧ cs = text ++ rest := by
  cases cs with
  | nil => cases read
  | cons c more =>
    by_cases zulu : c = 'Z' ∨ c = 'z'
    · have none : (offset (char ':')).run (c :: more) = some (0, more) := by
        rcases zulu with rfl | rfl <;> rfl
      rw [none] at read
      obtain ⟨rfl, rfl⟩ := Prod.mk.inj (Option.some.inj read)
      exact ⟨[c], .zulu zulu, rfl⟩
    by_cases sign : c = '+' ∨ c = '-' ∨ c = '\u2212'
    · rw [offset_signed sign] at read
      obtain ⟨hours, hs, _, hour, _, read⟩ := number_of_bind read
      obtain ⟨_, _, read⟩ := char_of_bind read
      obtain ⟨minutes, ms, left, minute, _, read⟩ := number_of_bind read
      dsimp only at read
      split at read
      · cases read
      split at read
      · cases read
      obtain ⟨_, _⟩ := Prod.mk.inj (Option.some.inj read)
      subst_vars
      exact ⟨_, .signed sign hour minute (by omega) (by omega), by simp⟩
    · have none : (offset (char ':')).run (c :: more) = none := by
        simp only [not_or] at zulu sign
        simp [offset, zulu, sign]
        rfl
      rw [none] at read
      cases read

theorem offset_writes {o : Int} {text : List Char} (writes : WritesOffset o text) :
    (offset (char ':')).run text = some (o, []) := by
  cases writes with
  | zulu letter => rcases letter with rfl | rfl <;> rfl
  | signed sign hour minute day below =>
    have minute' := number_written minute []
    rw [List.append_nil] at minute'
    rw [offset_signed sign, run_bind_some (number_written hour _), run_bind_some (char_cons _ _),
      run_bind_some minute', if_neg (by omega), if_neg (by omega)]
    rfl

end Read

/-! ### Stamps -/

/-- The numbers that a text in the form of RFC 3339 tells, with the offset in minutes. -/
structure Stamp where
  year : Nat
  month : Nat
  day : Nat
  hour : Nat
  minute : Nat
  second : Nat
  fraction : List Char
  offset : Int

namespace Stamp

/-- A text in the form of RFC 3339 that tells the numbers. -/
inductive Writes (s : Stamp) : List Char → Prop where
  | parts {ys ms ds hs ns ss fs os : List Char} {mark : Char} (year : Written 4 s.year ys)
    (month : Written 2 s.month ms) (day : Written 2 s.day ds)
    (between : mark = 'T' ∨ mark = 't' ∨ mark = ' ') (hour : Written 2 s.hour hs)
    (minute : Written 2 s.minute ns) (second : Written 2 s.second ss)
    (fraction : WritesFraction s.fraction fs) (offset : WritesOffset s.offset os) :
    Writes s (ys ++ '-' :: (ms ++ '-' :: (ds ++ mark :: (hs ++ ':' :: (ns ++ ':' ::
      (ss ++ (fs ++ os)))))))

/-- The calendar has the day, and the day has the time. -/
structure Valid (s : Stamp) : Prop where
  month : 1 ≤ s.month ∧ s.month ≤ 12
  day : 1 ≤ s.day ∧ s.day ≤ daysInMonth s.year s.month
  hour : s.hour ≤ 23
  minute : s.minute ≤ 59
  second : s.second ≤ 60

/-- The seconds of universal time from the start of 1970; they stand still during a leap second. -/
def seconds (s : Stamp) : Int :=
  (Date.mk s.year s.month s.day).toDays * 86400 + s.hour * 3600 + s.minute * 60 +
    (min s.second 59 : Nat) - s.offset * 60

/-- The nanoseconds from then on, which go beyond a second during a leap second. -/
def nanos (s : Stamp) : Nat := nanosOf s.fraction + (if s.second = 60 then 1000000000 else 0)

def instant (s : Stamp) : Instant := ⟨s.seconds, s.nanos⟩

/-- The instant that is made of the numbers as they are read. -/
def instant? (s : Stamp) : Option Instant :=
  Time.instant? s.year s.month s.day ⟨s.hour, s.minute, s.second, nanosOf s.fraction⟩ s.offset

end Stamp

theorem strictInstant_eq_some_iff {cs : List Char} {r : Option Instant} :
    strictInstant.run cs = some (r, []) ↔ ∃ s : Stamp, s.Writes cs ∧ r = s.instant? := by
  constructor
  · intro read
    rw [strictInstant] at read
    obtain ⟨y, ys, _, year, _, read⟩ := Read.number_of_bind read
    obtain ⟨_, _, read⟩ := Read.char_of_bind read
    obtain ⟨m, ms, _, month, _, read⟩ := Read.number_of_bind read
    obtain ⟨_, _, read⟩ := Read.char_of_bind read
    obtain ⟨d, ds, _, day, _, read⟩ := Read.number_of_bind read
    obtain ⟨_, _, ran, read⟩ := Read.exists_of_bind read
    obtain ⟨mark, between, _⟩ := Read.dateTimeMark_eq_some_iff.mp ran
    obtain ⟨h, hs, _, hour, _, read⟩ := Read.number_of_bind read
    obtain ⟨_, _, read⟩ := Read.char_of_bind read
    obtain ⟨n, ns, _, minute, _, read⟩ := Read.number_of_bind read
    obtain ⟨_, _, read⟩ := Read.char_of_bind read
    obtain ⟨s, ss, _, second, _, read⟩ := Read.number_of_bind read
    obtain ⟨f, _, ran, read⟩ := Read.exists_of_bind read
    obtain ⟨digits, fs, fraction, _, _⟩ := Read.fraction_eq_some ran
    obtain ⟨o, _, ran, read⟩ := Read.exists_of_bind read
    obtain ⟨os, offset, _⟩ := Read.offset_eq_some ran
    obtain ⟨_, _⟩ := Prod.mk.inj (Option.some.inj read)
    subst_vars
    rw [List.append_nil]
    exact ⟨⟨y, m, d, h, n, s, digits, o⟩,
      .parts year month day between hour minute second fraction offset, rfl⟩
  · rintro ⟨s, ⟨year, month, day, between, hour, minute, second, fraction, offset⟩, rfl⟩
    obtain ⟨c, rest, rfl, point, stop⟩ := offset.exists_cons
    rw [strictInstant, Read.run_bind_some (Read.number_written year _),
      Read.run_bind_some (Read.char_cons _ _), Read.run_bind_some (Read.number_written month _),
      Read.run_bind_some (Read.char_cons _ _), Read.run_bind_some (Read.number_written day _),
      Read.run_bind_some (Read.dateTimeMark_eq_some_iff.mpr ⟨_, between, rfl⟩),
      Read.run_bind_some (Read.number_written hour _), Read.run_bind_some (Read.char_cons _ _),
      Read.run_bind_some (Read.number_written minute _), Read.run_bind_some (Read.char_cons _ _),
      Read.run_bind_some (Read.number_written second _),
      Read.run_bind_some (Read.fraction_writes fraction point stop _),
      Read.run_bind_some (Read.offset_writes offset)]
    rfl

theorem Stamp.Writes.year_le {s : Stamp} {cs : List Char} (writes : s.Writes cs) :
    s.year ≤ 9999 := by
  obtain ⟨⟨length, digits, value⟩⟩ := writes
  have less := natOfDigits_lt digits
  rw [value, length] at less
  omega

theorem Stamp.Writes.offset_lt {s : Stamp} {cs : List Char} (writes : s.Writes cs) :
    -1440 < s.offset ∧ s.offset < 1440 := by
  obtain ⟨_, _, _, _, _, _, _, _, offset⟩ := writes
  exact offset.lt

/-- A year has 365.2425 days, up to what its months and leap days add. -/
theorem Date.toDays_bounds {d : Date} (month : 1 ≤ d.month ∧ d.month ≤ 12)
    (day : 1 ≤ d.day ∧ d.day ≤ 31) : 3652425 * d.year - 7195300000 ≤ 10000 * d.toDays ∧
      10000 * d.toDays ≤ 3652425 * d.year - 7191600000 := by
  obtain ⟨y, m, day'⟩ := d
  dsimp only at *
  unfold toDays
  dsimp only
  have shifted : m ≤ 2 ∧ (m + 9) % 12 = m + 9 ∨ 3 ≤ m ∧ (m + 9) % 12 = m - 3 := by omega
  rcases shifted with ⟨early, shifted⟩ | ⟨late, shifted⟩
  · rw [if_pos early, shifted]
    omega
  · rw [if_neg (by omega), shifted]
    omega

theorem daysInMonth_le (year : Int) (month : Nat) : daysInMonth year month ≤ 31 := by
  unfold daysInMonth
  split
  · split <;> decide
  · split <;> decide

/-- Whether the numbers make an instant, and which. -/
theorem instant?_eq_some_iff {s : Stamp} {cs : List Char} (writes : s.Writes cs) {t : Instant} :
    s.instant? = some t ↔ s.Valid ∧ t = s.instant := by
  have years := writes.year_le
  have offsets := writes.offset_lt
  have first : (Date.mk Date.firstYear 1 1).toDays = -96465292 := by decide
  have last : (Date.mk Date.lastYear 12 31).toDays = 95026236 := by decide
  have firstYear : Date.firstYear = -262143 := rfl
  have lastYear : Date.lastYear = 262142 := rfl
  unfold Stamp.instant? Time.instant? Date.make?
  by_cases date : (1 ≤ s.month ∧ s.month ≤ 12) ∧ 1 ≤ s.day ∧ s.day ≤ daysInMonth s.year s.month
  · rw [if_pos (by omega)]
    simp only [Option.bind_eq_bind, Option.bind_some, first, last]
    by_cases clock : s.hour ≤ 23 ∧ s.minute ≤ 59 ∧ s.second ≤ 60
    · rw [if_neg (by omega)]
      have days := daysInMonth_le s.year s.month
      have bounds := Date.toDays_bounds (d := ⟨s.year, s.month, s.day⟩) date.1
        ⟨date.2.1, date.2.2.trans days⟩
      dsimp only at bounds
      have valid : s.Valid := ⟨date.1, date.2, clock.1, clock.2.1, clock.2.2⟩
      have parts : (min s.second 59, if s.second = 60 then 1000000000 else 0) =
          if s.second = 60 then (59, 1000000000) else (s.second, 0) := by
        split
        · rw [Nat.min_eq_right (by omega)]
        · rw [Nat.min_eq_left (by omega)]
      rw [← parts, if_pos (by omega), Option.some_inj, eq_comm, and_iff_right valid]
      rfl
    · rw [if_pos (by omega)]
      exact ⟨nofun, fun made => absurd ⟨made.1.hour, made.1.minute, made.1.second⟩ clock⟩
  · rw [if_neg (by omega)]
    exact ⟨nofun, fun made => absurd ⟨made.1.month, made.1.day⟩ date⟩

/-- RFC 3339 is read by its numbers: what is read as an instant is a text that tells them, if there
is such a time. -/
theorem rfc3339?_eq_some_iff {cs : List Char} {t : Instant} :
    rfc3339? cs = some t ↔ ∃ s : Stamp, s.Writes cs ∧ s.Valid ∧ t = s.instant := by
  have whole : rfc3339? cs = some t ↔ strictInstant.run cs = some (some t, []) := by
    rw [rfc3339?, whole?]
    rcases strictInstant.run cs with _ | ⟨found, rest⟩
    · simp
    · cases rest <;> simp
  rw [whole, strictInstant_eq_some_iff]
  refine exists_congr fun s => and_congr_right fun writes => ?_
  rw [eq_comm, instant?_eq_some_iff writes]

/-! ### Moments and counts -/

namespace Stamp

/-- What has passed of the second, or of it and the leap second behind it. -/
def elapsed (s : Stamp) : ℚ :=
  natOfDigits s.fraction / 10 ^ s.fraction.length + (if s.second = 60 then 1 else 0)

/-- The moment that a time tells. -/
def moment (s : Stamp) : ℤ ×ₗ ℚ := toLex (s.seconds, s.elapsed)

/-- The nanoseconds from the start of 1970, as they are counted without leap seconds. -/
def count (s : Stamp) : Int := s.seconds * 1000000000 + s.nanos

/-- The count has a place in 64 bits with a sign. -/
def Fits (s : Stamp) : Prop := -2 ^ 63 ≤ s.count ∧ s.count < 2 ^ 63

instance (s : Stamp) : Decidable s.Fits := inferInstanceAs (Decidable (_ ∧ _))

/-- One time lies in a leap second and the other in the second behind it, no later in it. -/
def Meets (s u : Stamp) : Prop := u.seconds = s.seconds + 1 ∧ u.nanos + 1000000000 ≤ s.nanos

/-- The two times are moments of one nanosecond. -/
def Blurs (s u : Stamp) : Prop := s.seconds = u.seconds ∧ s.nanos = u.nanos ∧ s.elapsed ≠ u.elapsed

theorem elapsed_nonneg (s : Stamp) : 0 ≤ s.elapsed := by
  unfold elapsed
  positivity

theorem nanos_eq (s : Stamp) : s.nanos = ⌊s.elapsed * 1000000000⌋₊ := by
  have fraction : (natOfDigits s.fraction / 10 ^ s.fraction.length * 1000000000 : ℚ) =
      ((natOfDigits s.fraction * 10 ^ 9 : Nat) : ℚ) / ((10 ^ s.fraction.length : Nat) : ℚ) := by
    push_cast
    ring
  have leap : (if s.second = 60 then 1 else 0 : ℚ) * 1000000000 =
      ((if s.second = 60 then 1000000000 else 0 : Nat) : ℚ) := by
    split <;> norm_num
  have positive : (0 : ℚ) ≤ ((natOfDigits s.fraction * 10 ^ 9 : Nat) : ℚ) /
      ((10 ^ s.fraction.length : Nat) : ℚ) := by positivity
  rw [elapsed, add_mul, fraction, leap, Nat.floor_add_natCast positive, Nat.floor_div_eq_div]
  rfl

/-- A time is within the nanosecond that is counted. -/
theorem elapsed_bounds (s : Stamp) :
    (s.nanos : ℚ) ≤ s.elapsed * 1000000000 ∧ s.elapsed * 1000000000 < s.nanos + 1 := by
  have positive : 0 ≤ s.elapsed * 1000000000 := mul_nonneg s.elapsed_nonneg (by norm_num)
  rw [nanos_eq]
  exact ⟨Nat.floor_le positive, Nat.lt_floor_add_one _⟩

theorem elapsed_lt {s u : Stamp} (less : s.nanos < u.nanos) : s.elapsed < u.elapsed := by
  have ends := s.elapsed_bounds.2
  have begins := u.elapsed_bounds.1
  have next : (s.nanos : ℚ) + 1 ≤ u.nanos := by exact_mod_cast less
  linarith

theorem nanos_lt {s : Stamp} {cs : List Char} (writes : s.Writes cs) : s.nanos < 2000000000 := by
  have digits : ∀ c ∈ s.fraction, c.isDigit = true := by
    obtain ⟨_, _, _, _, _, _, _, fraction, _⟩ := writes
    exact fraction.digits
  have less := nanosOf_lt digits
  unfold nanos
  split <;> omega

end Stamp

theorem compare_eq_compare_iff {α β : Type} [LinearOrder α] [LinearOrder β] {a b : α} {c d : β} :
    compare a b = compare c d ↔ (a < b ↔ c < d) ∧ (b < a ↔ d < c) := by
  rw [← compare_lt_iff_lt, ← compare_lt_iff_lt, ← compare_gt_iff_gt, ← compare_gt_iff_gt]
  cases compare a b <;> cases compare c d <;> simp

namespace Stamp

variable {s u : Stamp} {cs cs' : List Char}

/-- The counts of two times are in the order of the moments, unless the count has lost what tells
them apart. -/
theorem compare_count (writes : s.Writes cs) (writes' : u.Writes cs') :
    compare s.count u.count = compare s.moment u.moment ↔
      ¬ s.Meets u ∧ ¬ u.Meets s ∧ ¬ s.Blurs u := by
  have less := nanos_lt writes
  have less' := nanos_lt writes'
  rw [compare_eq_compare_iff, moment, moment, Prod.Lex.toLex_lt_toLex, Prod.Lex.toLex_lt_toLex]
  unfold count Meets Blurs
  dsimp only
  rcases lt_trichotomy s.seconds u.seconds with before | same | after
  · simp only [before, before.ne, before.ne', before.not_gt, false_and, or_false, iff_true,
      iff_false, not_false_eq_true, and_true]
    omega
  · rcases lt_trichotomy s.nanos u.nanos with first | equal | second
    · have order := elapsed_lt first
      simp only [same, first.ne, order, order.not_gt, lt_irrefl, true_and, false_or, false_and,
        iff_true, iff_false, not_false_eq_true, and_true]
      omega
    · simp only [same, equal, lt_irrefl, true_and, false_or, false_iff, not_lt, not_not, ne_eq]
      constructor
      · exact fun both => ⟨by omega, by omega, le_antisymm both.2 both.1⟩
      · exact fun both => ⟨both.2.2.ge, both.2.2.le⟩
    · have order := elapsed_lt second
      simp only [same, second.ne', order, order.not_gt, lt_irrefl, true_and, false_or, false_and,
        iff_true, iff_false, not_false_eq_true, and_true]
      omega
  · simp only [after, after.ne, after.ne', after.not_gt, false_and, or_false, iff_true,
      iff_false, not_false_eq_true, and_true]
    omega

theorem toDays_bounds (valid : s.Valid) :
    3652425 * (s.year : Int) - 7195300000 ≤ 10000 * (Date.mk s.year s.month s.day).toDays ∧
      10000 * (Date.mk s.year s.month s.day).toDays ≤ 3652425 * s.year - 7191600000 :=
  Date.toDays_bounds (d := ⟨s.year, s.month, s.day⟩) valid.month
    ⟨valid.day.1, valid.day.2.trans (daysInMonth_le _ _)⟩

/-- The counts of the years 1678 to 2261 fit, and of those before 1677 and behind 2262 none does. -/
theorem fits_years (writes : s.Writes cs) (valid : s.Valid) :
    (1678 ≤ s.year ∧ s.year ≤ 2261 → s.Fits) ∧ (s.year ≤ 1676 ∨ 2263 ≤ s.year → ¬ s.Fits) := by
  have days := toDays_bounds valid
  have less := nanos_lt writes
  have offsets := writes.offset_lt
  have hour := valid.hour
  have minute := valid.minute
  unfold Fits count seconds
  constructor
  · omega
  · omega

end Stamp

end RepoAudit.Time
