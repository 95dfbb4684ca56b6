import RepoAudit.Decimal.Places
import RepoAudit.Decimal.Reader
import RepoAudit.Rdf.Vocabulary
import RepoAudit.Text.Blank

/-!
# RDF terms

IRIs, blank nodes and literals, in the order IRI, blank node, literal, and by their texts within
each kind.
-/

namespace RepoAudit.Rdf

/-- A literal: its text, the IRI of its datatype and, for a text in some language, the tag. -/
structure Literal where
  lexical : String
  datatype : String
  lang : Option String
deriving DecidableEq, Repr

inductive Term where
  | iri (iri : String)
  | blank (label : String)
  | literal (lit : Literal)
deriving DecidableEq, Repr

instance : Inhabited Term := ⟨.iri ""⟩

namespace Term

/-! ### Order -/

def rank : Term → Nat
  | .iri _ => 0
  | .blank _ => 1
  | .literal _ => 2

/-- The IRI, the label or the text of a literal. -/
def lexical : Term → String
  | .iri s => s
  | .blank s => s
  | .literal l => l.lexical

def datatype : Term → String
  | .literal l => l.datatype
  | _ => ""

def lang : Term → Option String
  | .literal l => l.lang
  | _ => none

instance : Ord Term where
  compare := compareLex (compareOn rank) (compareLex (compareOn lexical)
    (compareLex (compareOn datatype) (compareOn lang)))

instance : Std.TransOrd Term :=
  inferInstanceAs (Std.TransCmp (compareLex (compareOn rank) (compareLex (compareOn lexical)
    (compareLex (compareOn datatype) (compareOn lang)))))

instance : Std.LawfulEqOrd Term where
  eq_of_compare {a b} h := by
    replace h : compareLex (compareOn rank) (compareLex (compareOn lexical)
      (compareLex (compareOn datatype) (compareOn lang))) a b = .eq := h
    simp only [compareLex_eq_eq, compareOn] at h
    obtain ⟨hr, hl, hd, hg⟩ := h
    have hr := Std.LawfulEqCmp.eq_of_compare hr
    have hl := Std.LawfulEqCmp.eq_of_compare hl
    have hd := Std.LawfulEqCmp.eq_of_compare hd
    have hg := Std.LawfulEqCmp.eq_of_compare hg
    cases a <;> cases b <;> simp_all [rank, lexical, datatype, lang]
    rename_i x y
    cases x; cases y; simp_all

/-! ### Making terms -/

def string (s : String) : Term := .literal ⟨s, xsd "string", none⟩

def typed (lexical datatype : String) : Term := .literal ⟨lexical, datatype, none⟩

def integer (n : Int) : Term := typed (toString n) (xsd "integer")

def boolean (b : Bool) : Term := typed (if b then "true" else "false") (xsd "boolean")

def dateTime (s : String) : Term := typed s (xsd "dateTime")

/-- A text in a language; tags are written in lower case. -/
def langString (lexical lang : String) : Term :=
  .literal ⟨lexical, rdf "langString", some (Text.lowered lang)⟩

/-- Drops zeros at the end, but not one right behind the point. -/
def dropZeros : List Char → List Char
  | '0' :: '.' :: rest => '0' :: '.' :: rest
  | '0' :: rest => dropZeros rest
  | cs => cs

/-- A number with at most four decimal places. -/
def decimal (x : Float) : Term :=
  let lexical := Decimal.fixed 4 x
  typed (String.ofList (dropZeros lexical.toList.reverse).reverse) (xsd "decimal")

/-! ### Reading terms -/

def iri? : Term → Option String
  | .iri s => some s
  | _ => none

def literal? : Term → Option Literal
  | .literal l => some l
  | _ => none

def isIri : Term → Bool
  | .iri _ => true
  | _ => false

def isBlank : Term → Bool
  | .blank _ => true
  | _ => false

def isLiteral : Term → Bool
  | .literal _ => true
  | _ => false

end Term

namespace Literal

def isNumeric (l : Literal) : Bool := isNumericDatatype l.datatype

/-- The number that a literal of a numeric datatype writes. -/
def float? (l : Literal) : Option Float :=
  if l.isNumeric then Decimal.float? (Text.trim l.lexical.toList) else none

end Literal

namespace Term

def float? (t : Term) : Option Float := t.literal?.bind Literal.float?

def bool? (t : Term) : Option Bool :=
  match t with
  | .literal l =>
    if l.datatype == xsd "boolean" then
      if l.lexical == "true" || l.lexical == "1" then some true
      else if l.lexical == "false" || l.lexical == "0" then some false
      else none
    else none
  | _ => none

/-! ### Showing terms -/

/-- Backslashes, quotes, line ends and tabs are escaped. -/
def escapeChar (c : Char) : List Char :=
  if c == '\\' then ['\\', '\\']
  else if c == '"' then ['\\', '"']
  else if c == '\n' then ['\\', 'n']
  else if c == '\r' then ['\\', 'r']
  else if c == '\t' then ['\\', 't']
  else [c]

def escaped (s : String) : String := String.ofList (s.toList.flatMap escapeChar)

/-- A literal's text in quotes. -/
def quoted (s : String) : String := "\"" ++ escaped s ++ "\""

/-- A term in full, as messages show it. -/
def shown : Term → String
  | .iri s => "<" ++ s ++ ">"
  | .blank label => "_:" ++ label
  | .literal l => quoted l.lexical ++ match l.lang with
    | some lang => "@" ++ lang
    | none => if l.datatype == xsd "string" then "" else "^^<" ++ l.datatype ++ ">"

end Term
end RepoAudit.Rdf
