import RepoAudit.Digest.Sha256
import RepoAudit.Digest.Xxh3
import RepoAudit.Failure
import RepoAudit.Text.Casing

/-!
# Checksums

Digests with the name of their algorithm in front, and short digests for identifiers.
-/

namespace RepoAudit.Digest

inductive Algorithm where
  | sha256
  | xxh3
deriving DecidableEq, Repr, Inhabited

namespace Algorithm

def name : Algorithm → String
  | .sha256 => "sha256"
  | .xxh3 => "xxh3"

/-- Reads the name of an algorithm in any case, also under its other common name. -/
def ofName? (s : String) : Option Algorithm :=
  let s := Text.lowered s
  if s == "sha256" || s == "sha-256" then some .sha256
  else if s == "xxh3" || s == "xxhash" then some .xxh3
  else none

/-- As `ofName?`, with the cause of a refusal. -/
def ofName (s : String) : Except Failure Algorithm :=
  match ofName? s with
  | some a => .ok a
  | none => .error (.algorithm s)

end Algorithm

def checksum (a : Algorithm) (bs : List UInt8) : String :=
  a.name ++ ":" ++ match a with
    | .sha256 => Sha256.hexDigest bs
    | .xxh3 => Xxh3.hexDigest bs

/-- The first sixteen digits of the SHA-256 of a text. -/
def shortHash (s : String) : String :=
  String.ofList ((Sha256.hexDigest (bytesOf s)).toList.take 16)

/-- Whether data is taken to be no text: a zero byte among the first 8192. -/
def looksBinary (bs : List UInt8) : Bool := (bs.take 8192).contains 0

end RepoAudit.Digest
