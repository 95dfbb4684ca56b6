import RepoAudit.Decimal.Reader

/-!
# Numerals in a JSON document

A numeral is kept as it is written and read when it is asked for: as a natural number of 64 bits,
as an integer, or as a floating-point number. The last is not always the nearest one: the leading
digits that fit into 64 bits are taken, and scaled by one power of ten.
-/

namespace RepoAudit.Json

structure Numeral where
  negative : Bool
  whole : List Char
  fraction : Option (List Char)
  /-- The sign, true for minus, and the digits of the exponent. -/
  exponent : Option (Bool × List Char)
deriving DecidableEq, Repr

namespace Numeral

/-- Appends digits to `s` for as long as the number stays below `2 ^ 64`; the second part counts
the digits that are left over. -/
def gather (s : Nat) : List Char → Nat × Nat
  | [] => (s, 0)
  | d :: ds =>
    let next := 10 * s + (d.toNat - '0'.toNat)
    if next < Nat.pow 2 64 then gather next ds else (s, ds.length + 1)

/-- `10 ^ n` as a floating-point number. -/
def powerOfTen (n : Nat) : Float := Float.ofScientific 1 false n

/-- Divides by `10 ^ 308` as often as the exponent asks for; four times bring every number of 64
bits to zero. -/
def scaleDown : Nat → Float → Nat → Float
  | 0, x, _ => x
  | rounds + 1, x, e =>
    if e ≤ 308 then x / powerOfTen e else scaleDown rounds (x / powerOfTen 308) (e - 308)

/-- `s * 10 ^ e`, by one multiplication or by divisions. There is no infinite result. -/
def scaled? (s : Nat) (e : Int) : Option Float :=
  let x := Float.ofNat s
  if e ≤ 0 then some (scaleDown 4 x (-e).toNat)
  else if e ≤ 308 then
    let y := x * powerOfTen e.toNat
    if y.isInf then none else some y
  else if s = 0 then some 0.0
  else none

/-- The absolute value as a floating-point number. -/
def magnitude? (n : Numeral) : Option Float :=
  let (whole, excess) := gather 0 n.whole
  let (s, used) := match n.fraction with
    | some ds =>
      let (s, left) := gather whole ds
      (s, ds.length - left)
    | none => (whole, 0)
  let start := (excess : Int) - used
  match n.exponent with
  | none => scaled? s start
  | some (negative, ds) =>
    let e := Decimal.natOfDigits ds
    if e < Nat.pow 2 31 then scaled? s (if negative then start - e else start + e)
    else if s = 0 ∨ negative then some 0.0
    else none

def float? (n : Numeral) : Option Float :=
  n.magnitude?.map fun x => if n.negative then -x else x

/-- Whether there is neither a fraction nor an exponent. -/
def isWhole (n : Numeral) : Bool := n.fraction.isNone && n.exponent.isNone

/-- The value of a numeral for a natural number below `2 ^ 64`. -/
def nat? (n : Numeral) : Option Nat :=
  if n.isWhole && !n.negative then
    some (Decimal.natOfDigits n.whole) |>.filter (· < Nat.pow 2 64)
  else none

/-- The value of a numeral for an integer that fits into 64 bits; zero has no sign. -/
def int? (n : Numeral) : Option Int :=
  let size := Decimal.natOfDigits n.whole
  if !n.isWhole then none
  else if n.negative then if 0 < size ∧ size ≤ Nat.pow 2 63 then some (-size) else none
  else if size < Nat.pow 2 64 then some size
  else none

end Numeral
end RepoAudit.Json
