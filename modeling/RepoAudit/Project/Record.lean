import RepoAudit.Digest.Checksum
import RepoAudit.Ordered.Map
import RepoAudit.Ordered.Set
import RepoAudit.Project.Severity
import RepoAudit.Text.Slug

/-!
# Records of a project

What is known of files, modules, commits, contributors, dependencies and issues. Records refer to
each other by identifiers, which are made from what they describe, so that a second look at the same
thing gives the same identifier.
-/

namespace RepoAudit.Project

open Text

/-! ### Identifiers -/

def fileId (path : String) : String := "repo:file/" ++ path

theorem fileId_injective {path path' : String} (same : fileId path = fileId path') :
    path = path' :=
  (String.append_right_inj _).mp same

def moduleId (name : String) : String := "repo:module/" ++ name

def commitId (sha : String) : String := "repo:commit/" ++ sha

def projectId (name : String) : String := "repo:project/" ++ slug name

/-- Contributors are told apart by their address in any case, or by their name if they have no
address. -/
def personId (name email : String) : String :=
  let email := lowered (trimmed email)
  if email.isEmpty then "repo:person/name-" ++ slug (normalizedName name)
  else "repo:person/" ++ Digest.shortHash email

/-- There is one issue of a kind for a key. -/
def issueId (kind : IssueKind) (key : String) : String := s!"repo:issue/{kind.name}/{key}"

/-- The module of a file: the first directory on its path, or a dot at the root. -/
def moduleName (path : String) : String :=
  match cut? '/' path.toList with
  | some (top, _) => String.ofList top
  | none => "."

/-! ### Records -/

structure File where
  id : String
  /-- From the root of the project, with slashes. -/
  path : String
  language : Option String := none
  /-- Lines that are not blank. -/
  loc : Nat := 0
  sizeBytes : Nat := 0
  checksum : Option String := none
  complexity : Option Float := none
  maintainability : Option Float := none
  /-- Lines added and deleted over the whole history. -/
  churn : Nat := 0
  linesAdded : Nat := 0
  linesDeleted : Nat := 0
  commitCount : Nat := 0
  /-- Lines added by each contributor. -/
  contributions : SortedMap String Nat := ∅
  owner : Option String := none
  hotness : Float := 0.0
  todoCount : Nat := 0
  issues : List String := []

namespace File

/-- A file of which only the path is known. -/
def ofPath (path : String) : File := { id := fileId path, path }

def moduleName (f : File) : String := Project.moduleName f.path

end File

/-- The files below one directory at the root. -/
structure Module where
  id : String
  name : String
  loc : Nat
  files : SortedSet String
deriving DecidableEq

structure Commit where
  id : String
  sha : String
  author : String
  timestamp : String
  message : String
  /-- The files of the project that were changed. -/
  files : List String
  linesAdded : Nat
  linesDeleted : Nat
deriving DecidableEq

structure Person where
  id : String
  name : String
  email : String
  commits : Nat := 0
  linesAdded : Nat := 0
  linesDeleted : Nat := 0
  owns : SortedSet String := ∅
deriving DecidableEq

/-- An import, and the file of the project that it leads to. -/
structure Dependency where
  source : String
  /-- The target as it is written. -/
  target : String
  resolved : Option String
deriving DecidableEq

namespace Dependency

/-- Imports are compared by source, then by target. -/
instance : Ord Dependency :=
  ⟨compareLex (compareOn source) (compareLex (compareOn target) (compareOn resolved))⟩

instance : Std.TransOrd Dependency :=
  inferInstanceAs (Std.TransCmp
    (compareLex (compareOn source) (compareLex (compareOn target) (compareOn resolved))))

instance : Std.LawfulEqOrd Dependency where
  eq_of_compare {a b} h := by
    replace h : compareLex (compareOn source) (compareLex (compareOn target) (compareOn resolved))
      a b = .eq := h
    simp only [compareLex_eq_eq, compareOn] at h
    obtain ⟨hs, ht, hr⟩ := h
    have hs := Std.LawfulEqCmp.eq_of_compare hs
    have ht := Std.LawfulEqCmp.eq_of_compare ht
    have hr := Std.LawfulEqCmp.eq_of_compare hr
    cases a; cases b; simp_all

end Dependency

structure Issue where
  id : String
  kind : IssueKind
  severity : Severity
  title : String
  description : String := ""
  file : Option String := none
  score : Option Float := none

/-- What the last validation of the project found. -/
structure Validation where
  conforms : Bool
  violations : Nat
  warnings : Nat
  infos : Nat
  shapes : List String
deriving DecidableEq

/-- Numbers of issues by severity. -/
structure IssueSummary where
  critical : Nat
  high : Nat
  medium : Nat
  low : Nat
  info : Nat
  total : Nat
deriving DecidableEq

def IssueSummary.ofIssues (issues : List Issue) : IssueSummary :=
  let count (s : Severity) : Nat := issues.countP (·.severity == s)
  ⟨count .critical, count .high, count .medium, count .low, count .info, issues.length⟩

end RepoAudit.Project
