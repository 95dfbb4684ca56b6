import RepoAudit.Decimal.Places

/-!
# The shortest decimal that reads back

Every real number between the midpoints to a floating-point number's two neighbours reads back
as that number; the midpoints do so if the significand is even. The shortest decimal is the
point of that interval on the coarsest power-of-ten grid that has one, the nearer of two.
-/

namespace RepoAudit.Decimal

/-- The number `digits * 10 ^ exponent`. -/
structure Scaled where
  digits : Nat
  exponent : Int
deriving DecidableEq, Repr

/-- A number with the interval of reals that read back as it, all in units of
`num / den`, for a grid of whole steps. -/
structure Interval where
  low : Nat
  middle : Nat
  high : Nat
  closed : Bool
deriving DecidableEq, Repr

namespace Interval

/-- The interval around `significand * 2 ^ exponent`, in quarters of `2 ^ exponent`. The gap below
a power of two is half as wide unless the exponent is the least one. -/
def around (b : Binary) : Interval :=
  let narrow := b.significand == Nat.pow 2 52 && b.exponent != -1074
  { low := 4 * b.significand - (if narrow then 1 else 2)
    middle := 4 * b.significand
    high := 4 * b.significand + 2
    closed := b.significand % 2 == 0 }

/-- Whether `n` grid steps of `step` lie in the interval, whose unit is `unit`. -/
def holds (i : Interval) (unit step n : Nat) : Bool :=
  if i.closed then i.low * unit ≤ n * step && n * step ≤ i.high * unit
  else i.low * unit < n * step && n * step < i.high * unit

/-- The grid point in the interval that is nearest to its middle. -/
def nearest? (i : Interval) (unit step : Nat) : Option Nat :=
  let below := i.middle * unit / step
  let above := below + 1
  match i.holds unit step below, i.holds unit step above with
  | true, true =>
    let toBelow := i.middle * unit - below * step
    let toAbove := above * step - i.middle * unit
    some (if toBelow < toAbove ∨ (toBelow = toAbove ∧ below % 2 = 0) then below else above)
  | true, false => some below
  | false, true => some above
  | false, false => none

end Interval

/-- Tries the grids `10 ^ k`, `10 ^ (k - 1)`, … in turn. -/
def searchGrid (b : Binary) : Nat → Int → Scaled
  | 0, k => ⟨0, k⟩
  | tries + 1, k =>
    let quarter := b.exponent - 2
    let unit := Nat.pow 2 quarter.toNat * Nat.pow 10 (-k).toNat
    let step := Nat.pow 10 k.toNat * Nat.pow 2 (-quarter).toNat
    match (Interval.around b).nearest? unit step with
    | some n => ⟨n, k⟩
    | none => searchGrid b tries (k - 1)

/-- The shortest decimal that reads back as a non-zero number; seventeen digits always do. -/
def shortest (b : Binary) : Scaled :=
  if b.significand = 0 then ⟨0, 0⟩
  else
    let top := (Nat.log2 b.significand + 1 + b.exponent) * 30103 / 100000 + 1
    searchGrid b 24 top

/-- Writes the digits with a point `point` places after their start, and zeros where they do not
reach. -/
def positional (ds : List Char) (point : Int) : List Char :=
  if point ≤ 0 then '0' :: '.' :: (List.replicate (-point).toNat '0' ++ ds)
  else if ds.length ≤ point.toNat then ds ++ List.replicate (point.toNat - ds.length) '0'
  else ds.take point.toNat ++ '.' :: ds.drop point.toNat

/-- Writes a number in full with the fewest digits that read back; a whole number has no point. -/
def plain (x : Float) : String :=
  match Binary.ofFloat? x with
  | some b =>
    let s := shortest b
    let ds := digits s.digits
    let body := if s.digits = 0 then ['0'] else positional ds (ds.length + s.exponent)
    String.ofList ((if b.negative then ['-'] else []) ++ body)
  | none => if x.isNaN then "NaN" else if isNegative x then "-inf" else "inf"

end RepoAudit.Decimal
