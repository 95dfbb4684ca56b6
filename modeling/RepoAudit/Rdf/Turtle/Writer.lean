import RepoAudit.Rdf.Graph

/-!
# Writing Turtle

Triples are grouped by subject and predicate, types first. An IRI is abbreviated by the first
prefix, in order of names, that leaves a plain name.
-/

namespace RepoAudit.Rdf.Turtle

/-- Whether a name may follow a prefix as it is. -/
def isPlainName (name : List Char) : Bool :=
  !name.isEmpty && name.all (fun c => c.isAlphanum || c == '_' || c == '-') &&
    name.head? != some '-'

def dropSign : List Char → List Char
  | '+' :: rest => rest
  | '-' :: rest => rest
  | cs => cs

/-- Whether a text reads as an integer without its datatype. -/
def readsAsInteger (s : String) : Bool :=
  let ds := dropSign s.toList
  !ds.isEmpty && ds.all Char.isDigit

/-- Whether a text reads as a decimal without its datatype. -/
def readsAsDecimal (s : String) : Bool :=
  match Text.cut? '.' (dropSign s.toList) with
  | some (whole, fraction) =>
    whole.all Char.isDigit && !fraction.isEmpty && fraction.all Char.isDigit
  | none => false

/-- The abbreviation of an IRI by a prefix. -/
def abbreviated? (iri : List Char) (pre : String × String) : Option String := do
  let name ← Text.dropStart? pre.2.toList iri
  if isPlainName name then some (pre.1 ++ ":" ++ String.ofList name) else none

def iriText (prefixes : SortedMap String String) (iri : String) : String :=
  if iri == rdf "nil" then "()"
  else (prefixes.entries.findSome? (abbreviated? iri.toList)).getD ("<" ++ iri ++ ">")

def literalText (prefixes : SortedMap String String) (l : Literal) : String :=
  match l.lang with
  | some lang => Term.quoted l.lexical ++ "@" ++ lang
  | none =>
    if l.datatype == xsd "string" then Term.quoted l.lexical
    else if l.datatype == xsd "integer" && readsAsInteger l.lexical ||
        l.datatype == xsd "decimal" && readsAsDecimal l.lexical ||
        l.datatype == xsd "boolean" && (l.lexical == "true" || l.lexical == "false") then
      l.lexical
    else Term.quoted l.lexical ++ "^^" ++ iriText prefixes l.datatype

def termText (prefixes : SortedMap String String) : Term → String
  | .iri s => iriText prefixes s
  | .blank label => "_:" ++ label
  | .literal l => literalText prefixes l

/-- A predicate; that of types has a keyword. -/
def verbText (prefixes : SortedMap String String) (predicate : Term) : String :=
  if predicate == .iri (rdf "type") then "a" else termText prefixes predicate

/-- A predicate with its objects. -/
def propertyText (prefixes : SortedMap String String) (property : Term × SortedSet Term) : String :=
  verbText prefixes property.1 ++ " " ++
    ", ".intercalate (property.2.toList.map (termText prefixes))

/-- The properties of a subject with the types in front. -/
def typesFirst (properties : SortedMap Term (SortedSet Term)) : List (Term × SortedSet Term) :=
  let type := Term.iri (rdf "type")
  (properties.get? type).toList.map (fun objects => (type, objects)) ++
    (properties.erase type).entries

def propertiesText (prefixes : SortedMap String String)
    (properties : List (Term × SortedSet Term)) : String :=
  " ;\n    ".intercalate (properties.map (propertyText prefixes))

/-- A subject with its properties. -/
def subjectText (prefixes : SortedMap String String) (subject : Term)
    (properties : SortedMap Term (SortedSet Term)) : String :=
  termText prefixes subject ++ " " ++ propertiesText prefixes (typesFirst properties) ++ " .\n\n"

def prefixText (pre : String × String) : String :=
  "@prefix " ++ pre.1 ++ ": <" ++ pre.2 ++ "> .\n"

/-- Writes a graph. -/
def write (g : Graph) : String :=
  String.join (g.prefixes.entries.map prefixText) ++
    (if g.prefixes.isEmpty then "" else "\n") ++
    String.join (g.bySubject.entries.map fun (s, m) => subjectText g.prefixes s m)

end RepoAudit.Rdf.Turtle
