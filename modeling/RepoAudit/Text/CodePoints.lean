import RepoAudit.Text.Split

/-!
# Sets of code points

A set of code points is written as text: `41-5A` is a stretch, `AA` one code point and
`100-12E/2` every second one from `100` to `12E`, all in hexadecimal.
-/

namespace RepoAudit.Text

/-- Code points from `first` to `last` in steps of `step`. -/
structure Stretch where
  first : Nat
  last : Nat
  step : Nat
deriving DecidableEq, Repr

namespace Stretch

def contains (s : Stretch) (n : Nat) : Bool :=
  s.first ≤ n && n ≤ s.last && (n - s.first) % s.step == 0

def toList (s : Stretch) : List Nat :=
  (List.range (s.last - s.first + 1)).filterMap fun i =>
    if i % s.step == 0 then some (s.first + i) else none

end Stretch

/-- The value of a hexadecimal digit, in either case. -/
def hexDigit? (c : Char) : Option Nat :=
  if '0' ≤ c ∧ c ≤ '9' then some (c.toNat - '0'.toNat)
  else if 'a' ≤ c ∧ c ≤ 'f' then some (c.toNat - 'a'.toNat + 10)
  else if 'A' ≤ c ∧ c ≤ 'F' then some (c.toNat - 'A'.toNat + 10)
  else none

/-- The number written by hexadecimal digits; other characters are passed over. -/
def hexNumber (cs : List Char) : Nat :=
  cs.foldl (fun n c => match hexDigit? c with
    | some d => 16 * n + d
    | none => n) 0

/-- The items of a table, which stand between spaces and line feeds. -/
def itemsOf (cs : List Char) : List (List Char) :=
  (fieldsBy (fun c => c == ' ' || c == '\n') cs).filter (!·.isEmpty)

def items (text : String) : List (List Char) := itemsOf text.toList

/-- Reads one stretch. -/
def stretch (word : List Char) : Stretch :=
  let ends := word.takeWhile (· != '/')
  let first := hexNumber (ends.takeWhile (· != '-'))
  match ends.dropWhile (· != '-'), word.dropWhile (· != '/') with
  | [], _ => ⟨first, first, 1⟩
  | last, [] => ⟨first, hexNumber last, 1⟩
  | last, step => ⟨first, hexNumber last, hexNumber step⟩

/-- Reads a set of code points. -/
def stretches (text : String) : List Stretch :=
  (items text).map stretch

/-- A table given by its characters is read without decoding the text. -/
theorem stretches_ofList (cs : List Char) :
    stretches (String.ofList cs) = (itemsOf cs).map stretch := by
  rw [stretches, items, String.toList_ofList]

/-- Whether a character is in a set of code points. -/
def Stretch.hasChar (set : List Stretch) (c : Char) : Bool := set.any (·.contains c.toNat)

end RepoAudit.Text
