import RepoAudit.Failure
import RepoAudit.Text.Casing

/-!
# Severities and kinds of issues
-/

namespace RepoAudit.Project

inductive Severity where
  | info
  | low
  | medium
  | high
  | critical
deriving DecidableEq, Repr, Inhabited

namespace Severity

def all : List Severity := [.info, .low, .medium, .high, .critical]

/-- Graver severities have higher ranks. -/
def rank : Severity → Nat
  | .info => 0
  | .low => 1
  | .medium => 2
  | .high => 3
  | .critical => 4

def name : Severity → String
  | .info => "info"
  | .low => "low"
  | .medium => "medium"
  | .high => "high"
  | .critical => "critical"

instance : Ord Severity := ⟨compareOn rank⟩

/-- The graver of two severities. -/
def max (a b : Severity) : Severity := if a.rank < b.rank then b else a

def ofExactName? (s : String) : Option Severity := all.find? (·.name == s)

/-- Reads a severity in any case. -/
def ofName? (s : String) : Option Severity := ofExactName? (Text.lowered s)

/-- As `ofName?`, with the cause of a refusal. -/
def ofName (s : String) : Except Failure Severity :=
  match ofName? s with
  | some severity => .ok severity
  | none => .error (.severity s)

end Severity

/-- Where an issue comes from. -/
inductive IssueKind where
  | hotspot
  | todo
  | dirtyWorktree
  | shaclViolation
deriving DecidableEq, Repr, Inhabited

namespace IssueKind

def all : List IssueKind := [.hotspot, .todo, .dirtyWorktree, .shaclViolation]

def name : IssueKind → String
  | .hotspot => "hotspot"
  | .todo => "todo"
  | .dirtyWorktree => "dirty_worktree"
  | .shaclViolation => "shacl_violation"

def ofName? (s : String) : Option IssueKind := all.find? (·.name == s)

end IssueKind
end RepoAudit.Project
