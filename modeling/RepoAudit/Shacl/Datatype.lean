import RepoAudit.Rdf.Term
import RepoAudit.Time.Reader

/-!
# Values of datatypes

Which texts a datatype admits, and how literals compare.
-/

namespace RepoAudit.Shacl

open Rdf

/-- Drops a sign. -/
def unsigned : List Char → List Char
  | '+' :: rest => rest
  | '-' :: rest => rest
  | cs => cs

def isInteger (s : String) : Bool :=
  let ds := unsigned s.toList
  !ds.isEmpty && ds.all Char.isDigit

def isDecimal (s : String) : Bool :=
  let body := unsigned s.toList
  let (whole, fraction) := (Text.cut? '.' body).getD (body, [])
  !(whole.isEmpty && fraction.isEmpty) && whole.all Char.isDigit && fraction.all Char.isDigit

/-- The nanoseconds of an `xsd:dateTime`, whose offset may be missing. A text in the form of
RFC 3339 is never read in the other form. -/
def dateTime? (s : String) : Option Int :=
  match Time.rfc3339? s.toList with
  | some t => t.nanoseconds?
  | none => (Time.local? s.toList).bind Time.Instant.nanoseconds?

/-- Whether the text of a literal is one of its datatype, as far as this is checked. -/
def isWellFormed (l : Literal) : Bool :=
  if l.datatype == xsd "integer" then isInteger l.lexical
  else if l.datatype == xsd "decimal" then isDecimal l.lexical
  else if l.datatype == xsd "double" then (Decimal.float? l.lexical.toList).isSome
  else if l.datatype == xsd "boolean" then ["true", "false", "1", "0"].contains l.lexical
  else if l.datatype == xsd "dateTime" then (dateTime? l.lexical).isSome
  else true

def hasDatatype (t : Term) (datatype : String) : Bool :=
  match t with
  | .literal l => l.datatype == datatype && isWellFormed l
  | _ => false

/-- The order of two floating-point numbers, if they have one. -/
def compareFloats (x y : Float) : Option Ordering :=
  if x < y then some .lt else if y < x then some .gt else if x == y then some .eq else none

/-- The order of two terms, if they can be compared: numbers by value, times as instants, strings
by their characters. -/
def compareValues (a b : Term) : Option Ordering :=
  match a, b with
  | .literal x, .literal y =>
    if x.isNumeric && y.isNumeric then do compareFloats (← x.float?) (← y.float?)
    else if x.datatype != y.datatype || x.lang.isSome || y.lang.isSome then none
    else if x.datatype == xsd "dateTime" then do
      return compare (← dateTime? x.lexical) (← dateTime? y.lexical)
    else if x.datatype == xsd "string" then some (compare x.lexical y.lexical)
    else none
  | _, _ => none

/-- The length of a text; blank nodes have none. -/
def length? : Term → Option Nat
  | .blank _ => none
  | t => some t.lexical.length

end RepoAudit.Shacl
