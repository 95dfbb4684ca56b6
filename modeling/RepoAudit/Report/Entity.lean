import RepoAudit.Project.Basic
import RepoAudit.Rdf.Term
import RepoAudit.Text.CodePoints
import RepoAudit.Text.Utf8

/-!
# Identifiers as IRIs

The identifier of a record becomes an IRI in the namespace of reports. Bytes that are not plain in
an IRI are written as a percent sign and two digits.
-/

namespace RepoAudit.Report

open Text

/-- Whether a byte stands for itself. -/
def isPlainByte (b : UInt8) : Bool :=
  let c := Char.ofNat b.toNat
  c.isAlphanum || c == '-' || c == '_' || c == '.' || c == '~' || c == '/'

def upperDigit (n : Nat) : Char := if n < 10 then Char.ofNat (48 + n) else Char.ofNat (55 + n)

def encodeByte (b : UInt8) : List Char :=
  if isPlainByte b then [Char.ofNat b.toNat]
  else ['%', upperDigit (b.toNat / 16), upperDigit (b.toNat % 16)]

def idMark : List Char := "repo:".toList

/-- The part of an identifier that its IRI encodes. -/
def localPart (id : List Char) : List Char := (dropStart? idMark id).getD id

/-- The IRI of an identifier. -/
def entityIri (id : String) : String :=
  Rdf.Namespace.repo ++ String.ofList ((encoded (localPart id.toList)).flatMap encodeByte)

def byteDigit? (b : UInt8) : Option Nat := hexDigit? (Char.ofNat b.toNat)

/-- The byte that two bytes behind a percent sign write. A plus sign may stand for the first
digit. -/
def byte? (a b : UInt8) : Option UInt8 := do
  let high ← if a == 0x2B then some 0 else byteDigit? a
  let low ← byteDigit? b
  return UInt8.ofNat (16 * high + low)

/-- Puts bytes in place of their encoding. -/
def decodedBytes : List UInt8 → List UInt8
  | 0x25 :: a :: b :: rest => match byte? a b with
    | some byte => byte :: decodedBytes rest
    | none => 0x25 :: decodedBytes (a :: b :: rest)
  | b :: rest => b :: decodedBytes rest
  | [] => []

/-- The identifier that an IRI stands for, if it is in the namespace of reports. -/
def entityId? (iri : String) : Option String :=
  (dropStart? Rdf.Namespace.repo.toList iri.toList).map fun name =>
    String.ofList (idMark ++ decoded (decodedBytes (encoded name)))

/-- The node of a record. -/
def node (id : String) : Rdf.Term := .iri (entityIri id)

end RepoAudit.Report
