/-!
# Texts as bytes

Encoding in UTF-8 and decoding. Bytes that belong to no character are read piece by piece: a piece
is the longest start of a character that cannot be completed, or else a single byte.
-/

namespace RepoAudit.Text

/-- The bytes of a text in UTF-8. -/
def encoded (cs : List Char) : List UInt8 := cs.flatMap String.utf8EncodeChar

/-- Whether a byte continues a character. -/
def continues (b : UInt8) : Bool := 0x80 ≤ b && b < 0xC0

/-- The six bits of a byte that continues a character. -/
def payload (b : UInt8) : Nat := b.toNat - 0x80

/-- Whether `b` may follow `a` at the start of a character of three bytes. Neither longer forms
than needed nor surrogates are characters. -/
def startsThree (a b : UInt8) : Bool :=
  if a == 0xE0 then 0xA0 ≤ b && b < 0xC0
  else if a == 0xED then 0x80 ≤ b && b < 0xA0
  else 0xE0 ≤ a && a < 0xF0 && continues b

/-- Whether `b` may follow `a` at the start of a character of four bytes. -/
def startsFour (a b : UInt8) : Bool :=
  if a == 0xF0 then 0x90 ≤ b && b < 0xC0
  else if a == 0xF4 then 0x80 ≤ b && b < 0x90
  else 0xF0 < a && a < 0xF4 && continues b

def startsTwo (a b : UInt8) : Bool := 0xC2 ≤ a && a < 0xE0 && continues b

/-- Decodes bytes; what belongs to no character is `none`. -/
def decodedPieces : List UInt8 → List (Option Char)
  | [] => []
  | a :: rest =>
    if a < 0x80 then some (Char.ofNat a.toNat) :: decodedPieces rest
    else match rest with
      | [] => [none]
      | b :: rest =>
        if startsTwo a b then
          some (Char.ofNat ((a.toNat - 0xC0) * 64 + payload b)) :: decodedPieces rest
        else if startsThree a b then
          match rest with
          | [] => [none]
          | c :: rest =>
            if continues c then
              some (Char.ofNat (((a.toNat - 0xE0) * 64 + payload b) * 64 + payload c)) ::
                decodedPieces rest
            else none :: decodedPieces (c :: rest)
        else if startsFour a b then
          match rest with
          | [] => [none]
          | c :: rest =>
            if continues c then
              match rest with
              | [] => [none]
              | d :: rest =>
                if continues d then
                  some (Char.ofNat ((((a.toNat - 0xF0) * 64 + payload b) * 64 + payload c) * 64 +
                    payload d)) :: decodedPieces rest
                else none :: decodedPieces (d :: rest)
            else none :: decodedPieces (c :: rest)
        else none :: decodedPieces (b :: rest)
termination_by bs => bs.length

/-- The character that stands for bytes which are none. -/
def replacement : Char := '\ufffd'

/-- Decodes bytes with a replacement for pieces that are no characters. -/
def decoded (bs : List UInt8) : List Char := (decodedPieces bs).map (·.getD replacement)

/-- Decodes bytes all of which belong to characters. -/
def decoded? (bs : List UInt8) : Option (List Char) := (decodedPieces bs).mapM id

end RepoAudit.Text
