/-!
# Bytes and words

Words of several bytes in both byte orders, and bytes in hexadecimal.
-/

namespace RepoAudit.Digest

/-- The number whose bytes these are, the least significant first. -/
def littleEndian (bs : List UInt8) : Nat := bs.foldr (fun b n => b.toNat + 256 * n) 0

/-- The number whose bytes these are, the most significant first. -/
def bigEndian (bs : List UInt8) : Nat := bs.foldl (fun n b => 256 * n + b.toNat) 0

/-- `count` bytes of a number, the most significant first. -/
def bigEndianBytes : Nat → Nat → List UInt8
  | 0, _ => []
  | count + 1, n => UInt8.ofNat (n / Nat.pow 256 count) :: bigEndianBytes count n

/-- `count` hexadecimal digits of a number. -/
def hexDigits : Nat → Nat → List Char
  | 0, _ => []
  | count + 1, n => Nat.digitChar (n / Nat.pow 16 count % 16) :: hexDigits count n

/-- A number in hexadecimal with `count` digits. -/
def hex (count n : Nat) : String := String.ofList (hexDigits count n)

/-- The bytes of a text in UTF-8. -/
def bytesOf (s : String) : List UInt8 := s.toUTF8.toList

end RepoAudit.Digest
