import RepoAudit.Ordered.Pair
import RepoAudit.Project.Record
import RepoAudit.Time.Instant

/-!
# Projects

A project gathers all that is known of a directory of source files. Issues are kept in one map and
linked from the files that they concern.
-/

namespace RepoAudit

open Project

structure Project where
  id : String := ""
  name : String := ""
  root : String := ""
  analyzedAt : Option Time.Instant := none
  gitHead : Option String := none
  files : SortedMap String File := ∅
  modules : SortedMap String Module := ∅
  commits : SortedMap String Commit := ∅
  contributors : SortedMap String Person := ∅
  issues : SortedMap String Issue := ∅
  /-- How many commits touch both files of a pair. -/
  coupling : SortedMap UnorderedPair Nat := ∅
  dependencies : SortedSet Dependency := ∅
  validation : Option Validation := none

namespace Project

instance : EmptyCollection Project := ⟨{}⟩

/-- A project of which only name and root are known. -/
def named (name root : String) : Project := { id := projectId name, name, root }

def file? (p : Project) (path : String) : Option File := p.files.get? (fileId path)

/-! ### Issues and their links -/

/-- Adds an issue to some links, unless it is there. -/
def link (links : List String) (issue : String) : List String :=
  if links.contains issue then links else links ++ [issue]

def File.link (f : File) (issue : String) : File :=
  { f with issues := Project.link f.issues issue }

/-- Removes links to issues. -/
def File.unlink (f : File) (gone : String → Bool) : File :=
  { f with issues := f.issues.filter (!gone ·) }

/-- Records an issue, in place of an earlier one with its identifier, and links it from its
file. -/
def record (p : Project) (issue : Issue) : Project :=
  { p with
    files := match issue.file with
      | some id => p.files.modify id (·.link issue.id)
      | none => p.files
    issues := p.issues.insert issue.id issue }

def recordAll (p : Project) (issues : List Issue) : Project := issues.foldl record p

/-- The identifiers of the issues of a kind. -/
def idsOf (p : Project) (kind : IssueKind) : SortedSet String :=
  .ofList ((p.issues.values.filter (·.kind == kind)).map (·.id))

/-- Drops the issues of a kind and the links to them. -/
def clear (p : Project) (kind : IssueKind) : Project :=
  let removed := p.idsOf kind
  { p with
    issues := p.issues.filter fun id _ => !removed.contains id
    files := p.files.mapValues fun _ f => f.unlink removed.contains }

/-- The issues of a kind replaced by others. -/
def replaceAll (p : Project) (kind : IssueKind) (issues : List Issue) : Project :=
  (p.clear kind).recordAll issues

/-! ### Pairs of files that change together -/

/-- Adds to the weight of a pair of different files. -/
def couple (p : Project) (x y : String) (weight : Nat) : Project :=
  if x == y then p
  else { p with coupling := p.coupling.alter (.of x y) fun w => some (w.getD 0 + weight) }

/-- How often two files changed together. -/
def couplingWeight (p : Project) (x y : String) : Nat := (p.coupling.get? (.of x y)).getD 0

/-! ### Totals -/

def totalLoc (p : Project) : Nat := (p.files.values.map (·.loc)).foldr (· + ·) 0

def issueSummary (p : Project) : IssueSummary := .ofIssues p.issues.values

end Project
end RepoAudit
