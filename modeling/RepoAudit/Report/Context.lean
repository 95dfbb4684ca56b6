import RepoAudit.Json.Value
import RepoAudit.Ordered.Map
import RepoAudit.Rdf.Vocabulary

/-!
# The context of reports

The context says for every name in a report which term of the vocabulary it stands for, and
whether its value is text, a reference or a literal of some datatype.
-/

namespace RepoAudit.Report

/-- What the value of a name is. -/
inductive Meaning where
  | text
  | reference
  | typed (datatype : String)
deriving DecidableEq, Repr

/-- The names of a report with their terms, in prefixed form, and their meanings. -/
def vocabulary : List (String × String × Meaning) :=
  [("name", "repo:name", .text),
   ("root", "repo:root", .text),
   ("analyzedAt", "repo:analyzedAt", .typed "xsd:dateTime"),
   ("gitHead", "repo:gitHead", .text),
   ("files", "repo:hasFile", .reference),
   ("modules", "repo:hasModule", .reference),
   ("contributors", "repo:hasContributor", .reference),
   ("commits", "repo:hasCommit", .reference),
   ("issues", "repo:hasIssue", .reference),
   ("coupling", "repo:hasCoupling", .reference),
   ("dependencies", "repo:hasDependency", .reference),
   ("path", "repo:path", .text),
   ("language", "repo:language", .text),
   ("loc", "repo:loc", .typed "xsd:integer"),
   ("sizeBytes", "repo:sizeBytes", .typed "xsd:integer"),
   ("checksum", "repo:checksum", .text),
   ("complexity", "repo:complexity", .typed "xsd:decimal"),
   ("maintainability", "repo:maintainability", .typed "xsd:decimal"),
   ("churn", "repo:churn", .typed "xsd:integer"),
   ("linesAdded", "repo:linesAdded", .typed "xsd:integer"),
   ("linesDeleted", "repo:linesDeleted", .typed "xsd:integer"),
   ("commitCount", "repo:commitCount", .typed "xsd:integer"),
   ("owner", "repo:owner", .reference),
   ("hotness", "repo:hotness", .typed "xsd:decimal"),
   ("todoCount", "repo:todoCount", .typed "xsd:integer"),
   ("module", "repo:inModule", .reference),
   ("containsFiles", "repo:containsFile", .reference),
   ("sha", "repo:sha", .text),
   ("author", "repo:author", .reference),
   ("timestamp", "prov:endedAtTime", .typed "xsd:dateTime"),
   ("message", "repo:message", .text),
   ("touches", "repo:touches", .reference),
   ("email", "repo:email", .text),
   ("owns", "repo:owns", .reference),
   ("issueType", "repo:issueType", .text),
   ("severity", "repo:severity", .text),
   ("title", "repo:title", .text),
   ("description", "repo:description", .text),
   ("affects", "repo:affects", .reference),
   ("score", "repo:score", .typed "xsd:decimal"),
   ("source", "repo:source", .reference),
   ("target", "repo:target", .text),
   ("resolvesTo", "repo:resolvesTo", .reference),
   ("weight", "repo:weight", .typed "xsd:integer")]

/-- How the context defines a term. -/
def definition (term : String) : Meaning → Json
  | .text => .string term
  | .reference => .object [("@id", .string term), ("@type", .string "@id")]
  | .typed datatype => .object [("@id", .string term), ("@type", .string datatype)]

/-- The prefixes and names in the order of their spelling. -/
def context : Json :=
  .object (SortedMap.ofList
    (Rdf.standardPrefixes.map (fun (name, iri) => (name, Json.string iri)) ++
      vocabulary.map fun (name, term, meaning) => (name, definition term meaning))).entries

end RepoAudit.Report
