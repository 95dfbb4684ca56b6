import RepoAudit.Json.Document
import RepoAudit.Json.Printer
import RepoAudit.Project.Basic
import RepoAudit.Report.Context
import RepoAudit.Time.Reader

/-!
# Reports as JSON documents

A document holds all of a project. What is written can be read again; a document that leaves out
what has a default is read with the default.
-/

namespace RepoAudit.Report

open Project

/-! ### Writing -/

def idAndTypes (id : String) (types : List String) : List (String × Json) :=
  [("@id", .string id), ("@type", .strings types)]

/-- A list that is left out when it is empty. -/
def nonEmpty (name : String) (items : List String) : List (String × Json) :=
  if items.isEmpty then [] else [(name, .strings items)]

def contributionsJson (m : SortedMap String Nat) : List (String × Json) :=
  if m.isEmpty then []
  else [("contributions", .object (m.entries.map fun (person, lines) => (person, .nat lines)))]

def fileJson (f : File) : Json :=
  .object <| idAndTypes f.id ["repo:File"] ++
    [("path", .string f.path)] ++
    Json.member? "language" .string f.language ++
    [("loc", .nat f.loc), ("sizeBytes", .nat f.sizeBytes)] ++
    Json.member? "checksum" .string f.checksum ++
    Json.member? "complexity" .float f.complexity ++
    Json.member? "maintainability" .float f.maintainability ++
    [("churn", .nat f.churn), ("linesAdded", .nat f.linesAdded),
      ("linesDeleted", .nat f.linesDeleted), ("commitCount", .nat f.commitCount)] ++
    contributionsJson f.contributions ++
    Json.member? "owner" .string f.owner ++
    [("hotness", .float f.hotness), ("todoCount", .nat f.todoCount),
      ("module", .string (moduleId f.moduleName))] ++
    nonEmpty "issues" f.issues

def moduleJson (m : Module) : Json :=
  .object <| idAndTypes m.id ["repo:Module"] ++
    [("name", .string m.name), ("loc", .nat m.loc), ("containsFiles", .strings m.files.toList)]

def personJson (p : Person) : Json :=
  .object <| idAndTypes p.id ["repo:Contributor", "foaf:Person", "prov:Agent"] ++
    [("name", .string p.name), ("email", .string p.email), ("commitCount", .nat p.commits),
      ("linesAdded", .nat p.linesAdded), ("linesDeleted", .nat p.linesDeleted)] ++
    nonEmpty "owns" p.owns.toList

def commitJson (c : Commit) : Json :=
  .object <| idAndTypes c.id ["repo:Commit", "prov:Activity"] ++
    [("sha", .string c.sha), ("author", .string c.author), ("timestamp", .string c.timestamp),
      ("message", .string c.message), ("touches", .strings c.files),
      ("linesAdded", .nat c.linesAdded), ("linesDeleted", .nat c.linesDeleted)]

def issueJson (i : Issue) : Json :=
  .object <| idAndTypes i.id ["repo:Issue"] ++
    [("issueType", .string i.kind.name), ("severity", .string i.severity.name),
      ("title", .string i.title), ("description", .string i.description)] ++
    Json.member? "affects" .string i.file ++
    Json.member? "score" .float i.score

def couplingJson (pair : UnorderedPair) (weight : Nat) : Json :=
  .object [
    ("@type", .strings ["repo:CouplingEdge"]), ("source", .string pair.first),
    ("target", .string pair.second), ("weight", .nat weight)]

def dependencyJson (d : Dependency) : Json :=
  .object <| [("@type", .strings ["repo:DependencyEdge"]), ("source", .string d.source),
    ("target", .string d.target)] ++
    Json.member? "resolvesTo" .string d.resolved

def validationJson (v : Validation) : Json :=
  .object [
    ("conforms", .bool v.conforms), ("violations", .nat v.violations),
    ("warnings", .nat v.warnings), ("infos", .nat v.infos), ("shapes", .strings v.shapes)]

/-- The document of a project. -/
def document (p : Project) : Json :=
  .object <| ("@context", context) :: idAndTypes p.id ["repo:Project"] ++
    [("name", .string p.name), ("root", .string p.root)] ++
    Json.member? "analyzedAt" (fun at_ => .string at_.rfc3339Zulu) p.analyzedAt ++
    Json.member? "gitHead" .string p.gitHead ++
    [("files", .array (p.files.values.map fileJson)),
      ("modules", .array (p.modules.values.map moduleJson)),
      ("contributors", .array (p.contributors.values.map personJson)),
      ("commits", .array (p.commits.values.map commitJson)),
      ("issues", .array (p.issues.values.map issueJson)),
      ("coupling", .array (p.coupling.entries.map fun (pair, weight) => couplingJson pair weight)),
      ("dependencies", .array (p.dependencies.toList.map dependencyJson))] ++
    Json.member? "validation" validationJson p.validation

/-- The text of the document of a project. -/
def json (p : Project) : String := (document p).pretty

/-! ### Reading -/

open Json (Document)
open Json.Document (string? bool? nat? float? optional? list? map? choice? fields?)

def strings? : Document → Option (List String) := list? string?

def kind? (d : Document) : Option IssueKind := do IssueKind.ofName? (← choice? d)

def severity? (d : Document) : Option Severity := do Severity.ofExactName? (← choice? d)

def instant? (d : Document) : Option Time.Instant := do Time.relaxed? (← string? d).toList

def file? (d : Document) : Option File := do
  let fs ← fields? ["@id", "@type", "path", "language", "loc", "sizeBytes", "checksum",
    "complexity", "maintainability", "churn", "linesAdded", "linesDeleted", "commitCount",
    "contributions", "owner", "hotness", "todoCount", "module", "issues"] d
  let _ ← fs.orElse "@type" strings? []
  let _ ← fs.orElse "module" (optional? string?) none
  return {
    id := ← fs.required "@id" string?
    path := ← fs.required "path" string?
    language := ← fs.orElse "language" (optional? string?) none
    loc := ← fs.orElse "loc" nat? 0
    sizeBytes := ← fs.orElse "sizeBytes" nat? 0
    checksum := ← fs.orElse "checksum" (optional? string?) none
    complexity := ← fs.orElse "complexity" (optional? float?) none
    maintainability := ← fs.orElse "maintainability" (optional? float?) none
    churn := ← fs.orElse "churn" nat? 0
    linesAdded := ← fs.orElse "linesAdded" nat? 0
    linesDeleted := ← fs.orElse "linesDeleted" nat? 0
    commitCount := ← fs.orElse "commitCount" nat? 0
    contributions := ← fs.orElse "contributions" (map? nat?) ∅
    owner := ← fs.orElse "owner" (optional? string?) none
    hotness := ← fs.orElse "hotness" float? 0.0
    todoCount := ← fs.orElse "todoCount" nat? 0
    issues := ← fs.orElse "issues" strings? [] }

def module? (d : Document) : Option Module := do
  let fs ← fields? ["@id", "@type", "name", "loc", "containsFiles"] d
  let _ ← fs.orElse "@type" strings? []
  return {
    id := ← fs.required "@id" string?
    name := ← fs.required "name" string?
    loc := ← fs.orElse "loc" nat? 0
    files := .ofList (← fs.orElse "containsFiles" strings? []) }

def person? (d : Document) : Option Person := do
  let fs ← fields? ["@id", "@type", "name", "email", "commitCount", "linesAdded", "linesDeleted",
    "owns"] d
  let _ ← fs.orElse "@type" strings? []
  return {
    id := ← fs.required "@id" string?
    name := ← fs.required "name" string?
    email := ← fs.orElse "email" string? ""
    commits := ← fs.orElse "commitCount" nat? 0
    linesAdded := ← fs.orElse "linesAdded" nat? 0
    linesDeleted := ← fs.orElse "linesDeleted" nat? 0
    owns := .ofList (← fs.orElse "owns" strings? []) }

def commit? (d : Document) : Option Commit := do
  let fs ← fields? ["@id", "@type", "sha", "author", "timestamp", "message", "touches",
    "linesAdded", "linesDeleted"] d
  let _ ← fs.orElse "@type" strings? []
  return {
    id := ← fs.required "@id" string?
    sha := ← fs.required "sha" string?
    author := ← fs.required "author" string?
    timestamp := ← fs.required "timestamp" string?
    message := ← fs.orElse "message" string? ""
    files := ← fs.orElse "touches" strings? []
    linesAdded := ← fs.orElse "linesAdded" nat? 0
    linesDeleted := ← fs.orElse "linesDeleted" nat? 0 }

def issue? (d : Document) : Option Issue := do
  let fs ← fields? ["@id", "@type", "issueType", "severity", "title", "description", "affects",
    "score"] d
  let _ ← fs.orElse "@type" strings? []
  return {
    id := ← fs.required "@id" string?
    kind := ← fs.required "issueType" kind?
    severity := ← fs.required "severity" severity?
    title := ← fs.required "title" string?
    description := ← fs.orElse "description" string? ""
    file := ← fs.orElse "affects" (optional? string?) none
    score := ← fs.orElse "score" (optional? float?) none }

def coupling? (d : Document) : Option (UnorderedPair × Nat) := do
  let fs ← fields? ["@type", "source", "target", "weight"] d
  let _ ← fs.orElse "@type" strings? []
  let source ← fs.required "source" string?
  let target ← fs.required "target" string?
  return (.of source target, ← fs.required "weight" nat?)

def dependency? (d : Document) : Option Dependency := do
  let fs ← fields? ["@type", "source", "target", "resolvesTo"] d
  let _ ← fs.orElse "@type" strings? []
  return {
    source := ← fs.required "source" string?
    target := ← fs.required "target" string?
    resolved := ← fs.orElse "resolvesTo" (optional? string?) none }

def validation? (d : Document) : Option Validation := do
  let fs ← fields? ["conforms", "violations", "warnings", "infos", "shapes"] d
  return {
    conforms := ← fs.required "conforms" bool?
    violations := ← fs.required "violations" nat?
    warnings := ← fs.required "warnings" nat?
    infos := ← fs.required "infos" nat?
    shapes := ← fs.required "shapes" strings? }

/-- How deeply values in the context of a document may be nested. -/
def contextDepth : Nat := 126

/-- Reads a document: its types and the project that it describes. Of several records with one
identifier the last one stays. -/
def typedProject? (d : Document) : Option (List String × Project) := do
  let fs ← fields? ["@context", "@id", "@type", "name", "root", "analyzedAt", "gitHead", "files",
    "modules", "contributors", "commits", "issues", "coupling", "dependencies", "validation"] d
  let _ ← fs.orElse "@context" (·.toJson? contextDepth) .null
  let types ← fs.orElse "@type" strings? []
  let files ← fs.orElse "files" (list? file?) []
  let modules ← fs.orElse "modules" (list? module?) []
  let contributors ← fs.orElse "contributors" (list? person?) []
  let commits ← fs.orElse "commits" (list? commit?) []
  let issues ← fs.orElse "issues" (list? issue?) []
  return (types, {
    id := ← fs.required "@id" string?
    name := ← fs.required "name" string?
    root := ← fs.orElse "root" string? ""
    analyzedAt := ← fs.orElse "analyzedAt" (optional? instant?) none
    gitHead := ← fs.orElse "gitHead" (optional? string?) none
    files := .ofList (files.map fun f => (f.id, f))
    modules := .ofList (modules.map fun m => (m.id, m))
    contributors := .ofList (contributors.map fun c => (c.id, c))
    commits := .ofList (commits.map fun c => (c.id, c))
    issues := .ofList (issues.map fun i => (i.id, i))
    coupling := .ofList (← fs.orElse "coupling" (list? coupling?) [])
    dependencies := .ofList (← fs.orElse "dependencies" (list? dependency?) [])
    validation := ← fs.orElse "validation" (optional? validation?) none })

/-- Reads the text of a document, which must be that of a project. -/
def project (text : String) : Except ReportFault Project :=
  match (Document.ofText? text.toList).bind typedProject? with
  | none => .error .unreadable
  | some (types, p) => if types.contains "repo:Project" then .ok p else .error .notAProject

end RepoAudit.Report
