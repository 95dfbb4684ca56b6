import RepoAudit.Text.Split

/-!
# Reading decimals

A decimal is read to the nearest floating-point number. Besides digits with a point and an
exponent, the words for infinity and for an undefined number are read in any case.
-/

namespace RepoAudit.Decimal

/-- The number that decimal digits write. -/
def natOfDigits (ds : List Char) : Nat :=
  ds.foldl (fun n d => 10 * n + (d.toNat - '0'.toNat)) 0

/-- A text of one or more decimal digits. -/
def nat? (cs : List Char) : Option Nat :=
  if cs.isEmpty || !cs.all Char.isDigit then none else some (natOfDigits cs)

/-- A natural number below `2 ^ bits`, which may follow a plus sign. -/
def word? (bits : Nat) (cs : List Char) : Option Nat :=
  let ds := match cs with
    | '+' :: rest => rest
    | _ => cs
  (nat? ds).filter (· < Nat.pow 2 bits)

def infinity : Float := 1.0 / 0.0

def undefinedNumber : Float := 0.0 / 0.0

/-- The floating-point number nearest to `m * 10 ^ e`. Beyond `10 ^ 400` in either direction the
answer no longer depends on `e`. -/
def nearestFloat (m : Nat) (e : Int) : Float :=
  let size := ((Nat.log2 m + 1) * 30103 / 100000 : Nat)
  if m = 0 then 0.0
  else if e + size > 400 then infinity
  else if e + size < -400 then 0.0
  else if e ≥ 0 then Float.ofScientific (m * Nat.pow 10 e.toNat) false 0
  else Float.ofScientific m true (-e).toNat

/-- Reads digits, a point and an exponent. -/
def unsigned? (cs : List Char) : Option Float := do
  let whole := cs.takeWhile Char.isDigit
  let rest := cs.dropWhile Char.isDigit
  let (fraction, rest) := match rest with
    | '.' :: after => (after.takeWhile Char.isDigit, after.dropWhile Char.isDigit)
    | _ => ([], rest)
  if whole.isEmpty && fraction.isEmpty then none
  let exponent ← match rest with
    | [] => some (0 : Int)
    | c :: after =>
      if c == 'e' || c == 'E' then
        match after with
        | '-' :: ds => (nat? ds).map fun n => -(n : Int)
        | '+' :: ds => (nat? ds).map Int.ofNat
        | ds => (nat? ds).map Int.ofNat
      else none
  some (nearestFloat (natOfDigits (whole ++ fraction)) (exponent - fraction.length))

/-- Reads a decimal to the nearest floating-point number. -/
def float? (cs : List Char) : Option Float :=
  let (negative, body) := match cs with
    | '-' :: rest => (true, rest)
    | '+' :: rest => (false, rest)
    | _ => (false, cs)
  let word := String.ofList (body.map Char.toLower)
  let size? := if word == "inf" || word == "infinity" then some infinity
    else if word == "nan" then some undefinedNumber
    else unsigned? body
  size?.map fun x => if negative then -x else x

end RepoAudit.Decimal
