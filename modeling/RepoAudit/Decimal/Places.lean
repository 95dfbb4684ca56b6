/-!
# Numbers with a fixed count of decimal places

A finite floating-point number is a sign, a significand and a power of two. Its exact value is
rounded to the last place that is written; a half goes to the even neighbour.
-/

namespace RepoAudit.Decimal

/-! ### Floating-point numbers as exact fractions -/

/-- The number `significand * 2 ^ exponent`, negated if `negative`. -/
structure Binary where
  negative : Bool
  significand : Nat
  exponent : Int
deriving DecidableEq, Repr

namespace Binary

/-- Reads a number off its bits; infinities and undefined results have no fraction. -/
def ofFloat? (x : Float) : Option Binary :=
  let bits := x.toBits.toNat
  let negative : Bool := bits / Nat.pow 2 63 == 1
  let field : Nat := bits / Nat.pow 2 52 % 2048
  let fraction : Nat := bits % Nat.pow 2 52
  if field == 2047 then none
  else if field == 0 then some ⟨negative, fraction, -1074⟩
  else some ⟨negative, fraction + Nat.pow 2 52, Int.ofNat field - 1075⟩

/-- The factor by which the power of two multiplies. -/
def scale (b : Binary) : Nat := Nat.pow 2 b.exponent.toNat

/-- The factor by which the power of two divides. -/
def divisor (b : Binary) : Nat := Nat.pow 2 (-b.exponent).toNat

end Binary

/-- Whether the sign bit is set, also for zero. -/
def isNegative (x : Float) : Bool := x.toBits.toNat / Nat.pow 2 63 == 1

/-! ### Decimal places -/

/-- The quotient rounded to the nearest integer, a half to the even one. -/
def roundDiv (num den : Nat) : Nat :=
  let q := num / den
  match compare (2 * (num % den)) den with
  | .lt => q
  | .gt => q + 1
  | .eq => q + q % 2

/-- The decimal digits of a number. -/
def digits (n : Nat) : List Char := Nat.toDigits 10 n

/-- Writes `n / 10 ^ places` with that many digits after the point. -/
def withPoint (places n : Nat) : List Char :=
  let ds := digits n
  let padded := List.replicate (places + 1 - ds.length) '0' ++ ds
  let whole := padded.take (padded.length - places)
  if places == 0 then whole else whole ++ '.' :: padded.drop (padded.length - places)

/-- Writes a number with a fixed count of places. -/
def fixed (places : Nat) (x : Float) : String :=
  match Binary.ofFloat? x with
  | some b =>
    let n := roundDiv (b.significand * b.scale * Nat.pow 10 places) b.divisor
    String.ofList ((if b.negative then ['-'] else []) ++ withPoint places n)
  | none => if x.isNaN then "NaN" else if isNegative x then "-inf" else "inf"

end RepoAudit.Decimal
