import RepoAudit.Rdf.Graph
import RepoAudit.Report.Entity

/-!
# A project as a graph

The facts of a project in the vocabulary of reports. Every record is a node of its own, and so is
every pair of files that change together and every import.
-/

namespace RepoAudit.Report

open Project Rdf

/-- Numbers of the graph have 64 bits with a sign; greater counts are written as the greatest. -/
def count (n : Nat) : Term := .integer (min n (Nat.pow 2 63 - 1))

/-- The node of a pair of files. -/
def couplingNode (pair : UnorderedPair) : Term :=
  node ("repo:coupling/" ++ Digest.shortHash s!"{pair.first}|{pair.second}")

def dependencyNode (d : Dependency) : Term :=
  node ("repo:dependency/" ++ Digest.shortHash s!"{d.source}|{d.target}")

/-- A fact about a node. -/
def fact (subject : Term) (predicate : String) (object : Term) : Triple :=
  ⟨subject, .iri predicate, object⟩

/-- A fact that is stated if there is a value. -/
def fact? {α : Type} (subject : Term) (predicate : String) (term : α → Term) :
    Option α → List Triple
  | some a => [fact subject predicate (term a)]
  | none => []

def typeFact (subject : Term) (type : String) : Triple := fact subject (rdf "type") (.iri type)

def projectFacts (p : Project) : List Triple :=
  let s := node p.id
  [typeFact s (repo "Project"),
    fact s (repo "name") (.string p.name),
    fact s (repo "root") (.string p.root)] ++
  (match p.analyzedAt with
    | some at_ =>
      [fact s (repo "analyzedAt") (.dateTime at_.rfc3339),
        fact s (prov "generatedAtTime") (.dateTime at_.rfc3339)]
    | none => []) ++
  fact? s (repo "gitHead") .string p.gitHead

def fileFacts (f : File) : List Triple :=
  let s := node f.id
  [typeFact s (repo "File"), fact s (repo "path") (.string f.path)] ++
  fact? s (repo "language") .string f.language ++
  [fact s (repo "loc") (count f.loc), fact s (repo "sizeBytes") (count f.sizeBytes)] ++
  fact? s (repo "checksum") .string f.checksum ++
  fact? s (repo "complexity") .decimal f.complexity ++
  fact? s (repo "maintainability") .decimal f.maintainability ++
  [fact s (repo "churn") (count f.churn),
    fact s (repo "linesAdded") (count f.linesAdded),
    fact s (repo "linesDeleted") (count f.linesDeleted),
    fact s (repo "commitCount") (count f.commitCount),
    fact s (repo "hotness") (.decimal f.hotness),
    fact s (repo "todoCount") (count f.todoCount),
    fact s (repo "inModule") (node (moduleId f.moduleName))] ++
  fact? s (repo "owner") node f.owner ++
  f.issues.map fun issue => fact s (repo "hasIssue") (node issue)

def moduleFacts (m : Module) : List Triple :=
  let s := node m.id
  [typeFact s (repo "Module"),
    fact s (repo "name") (.string m.name),
    fact s (repo "loc") (count m.loc)] ++
  m.files.toList.map fun file => fact s (repo "containsFile") (node file)

def personFacts (p : Person) : List Triple :=
  let s := node p.id
  [typeFact s (repo "Contributor"), typeFact s (foaf "Person"), typeFact s (prov "Agent"),
    fact s (foaf "name") (.string p.name)] ++
  (if p.email.isEmpty then [] else [fact s (repo "email") (.string p.email)]) ++
  [fact s (repo "commitCount") (count p.commits),
    fact s (repo "linesAdded") (count p.linesAdded),
    fact s (repo "linesDeleted") (count p.linesDeleted)] ++
  p.owns.toList.map fun file => fact s (repo "owns") (node file)

def commitFacts (c : Commit) : List Triple :=
  let s := node c.id
  [typeFact s (repo "Commit"), typeFact s (prov "Activity"),
    fact s (repo "sha") (.string c.sha),
    fact s (repo "author") (node c.author),
    fact s (prov "wasAssociatedWith") (node c.author),
    fact s (prov "endedAtTime") (.dateTime c.timestamp),
    fact s (repo "message") (.string c.message),
    fact s (repo "linesAdded") (count c.linesAdded),
    fact s (repo "linesDeleted") (count c.linesDeleted)] ++
  c.files.map fun file => fact s (repo "touches") (node file)

def issueFacts (i : Issue) : List Triple :=
  let s := node i.id
  [typeFact s (repo "Issue"),
    fact s (repo "issueType") (.string i.kind.name),
    fact s (repo "severity") (.string i.severity.name),
    fact s (repo "title") (.string i.title)] ++
  (if i.description.isEmpty then [] else [fact s (repo "description") (.string i.description)]) ++
  fact? s (repo "affects") node i.file ++
  fact? s (repo "score") .decimal i.score

def couplingFacts (pair : UnorderedPair) (weight : Nat) : List Triple :=
  let s := couplingNode pair
  [typeFact s (repo "CouplingEdge"),
    fact s (repo "source") (node pair.first),
    fact s (repo "target") (node pair.second),
    fact s (repo "weight") (count weight)]

def dependencyFacts (d : Dependency) : List Triple :=
  let s := dependencyNode d
  [typeFact s (repo "DependencyEdge"),
    fact s (repo "source") (node d.source),
    fact s (repo "target") (.string d.target)] ++
  fact? s (repo "resolvesTo") node d.resolved

/-- The facts of the parts of a project, each after the fact that it is a part. -/
def parts {α : Type} (p : Project) (predicate : String) (nodeOf : α → Term)
    (facts : α → List Triple) (records : List α) : List Triple :=
  records.flatMap fun r => fact (node p.id) predicate (nodeOf r) :: facts r

/-- All facts of a project. -/
def facts (p : Project) : List Triple :=
  projectFacts p ++
  parts p (repo "hasFile") (fun f => node f.id) fileFacts p.files.values ++
  parts p (repo "hasModule") (fun m => node m.id) moduleFacts p.modules.values ++
  parts p (repo "hasContributor") (fun c => node c.id) personFacts p.contributors.values ++
  parts p (repo "hasCommit") (fun c => node c.id) commitFacts p.commits.values ++
  parts p (repo "hasIssue") (fun i => node i.id) issueFacts p.issues.values ++
  parts p (repo "hasCoupling") (fun e => couplingNode e.1) (fun e => couplingFacts e.1 e.2)
    p.coupling.entries ++
  parts p (repo "hasDependency") dependencyNode dependencyFacts p.dependencies.toList

/-- The graph of a project. -/
def graph (p : Project) : Graph :=
  let empty : Graph := ∅
  (standardPrefixes.foldl (fun g pre => g.setPrefix pre.1 pre.2) empty).insertMany (facts p)

end RepoAudit.Report
