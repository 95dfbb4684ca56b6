import RepoAudit.Text.Casing
import RepoAudit.Text.Split

/-!
# Vocabularies

The namespaces of the terms that reports and shapes are written in. `sh "path"` is the IRI that
is usually written `sh:path`.
-/

namespace RepoAudit.Rdf

namespace Namespace

def repo : String := "http://repoq.dev/ns#"
def rdf : String := "http://www.w3.org/1999/02/22-rdf-syntax-ns#"
def rdfs : String := "http://www.w3.org/2000/01/rdf-schema#"
def xsd : String := "http://www.w3.org/2001/XMLSchema#"
def foaf : String := "http://xmlns.com/foaf/0.1/"
def prov : String := "http://www.w3.org/ns/prov#"
def sh : String := "http://www.w3.org/ns/shacl#"

end Namespace

/-- The IRI of a term of a repository report. -/
def repo (name : String) : String := Namespace.repo ++ name

def rdf (name : String) : String := Namespace.rdf ++ name

def rdfs (name : String) : String := Namespace.rdfs ++ name

def xsd (name : String) : String := Namespace.xsd ++ name

def foaf (name : String) : String := Namespace.foaf ++ name

def prov (name : String) : String := Namespace.prov ++ name

def sh (name : String) : String := Namespace.sh ++ name

@[simp] theorem sh_inj {a b : String} : sh a = sh b ↔ a = b := String.append_right_inj _

@[simp] theorem sh_ne_rdf (a b : String) : sh a ≠ rdf b := by
  intro same
  have chars := congrArg String.toList same
  simp [sh, rdf, Namespace.sh, Namespace.rdf] at chars

@[simp] theorem rdf_ne_sh (a b : String) : rdf a ≠ sh b := (sh_ne_rdf b a).symm

/-- The prefixes that every report declares. -/
def standardPrefixes : List (String × String) :=
  [("repo", Namespace.repo), ("rdf", Namespace.rdf), ("rdfs", Namespace.rdfs),
   ("xsd", Namespace.xsd), ("foaf", Namespace.foaf), ("prov", Namespace.prov),
   ("sh", Namespace.sh)]

/-- The names of the numeric datatypes. -/
def numericNames : List String :=
  ["integer", "decimal", "double", "float", "long", "int", "short", "byte", "nonNegativeInteger",
   "positiveInteger", "nonPositiveInteger", "negativeInteger", "unsignedLong", "unsignedInt",
   "unsignedShort", "unsignedByte"]

/-- Whether an IRI is that of a numeric datatype. -/
def isNumericDatatype (datatype : String) : Bool :=
  match Text.dropStart? Namespace.xsd.toList datatype.toList with
  | some name => numericNames.contains (String.ofList name)
  | none => false

/-- The constraint component of a parameter: `minCount` belongs to `sh:MinCountConstraintComponent`. -/
def componentOf (parameter : String) : String :=
  let capitalized := match parameter.toList with
    | [] => []
    | c :: rest => Text.upperChar c ++ rest
  sh (String.ofList capitalized ++ "ConstraintComponent")

end RepoAudit.Rdf
