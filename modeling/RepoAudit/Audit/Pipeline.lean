import RepoAudit.Audit.Inspection
import RepoAudit.Audit.Structure
import RepoAudit.History.Effect
import RepoAudit.Ranking.Hotness

/-!
# Audits

An audit is a sequence of stages. A stage that fails leaves the project as it is, and the audit
goes on with the next one.
-/

namespace RepoAudit.Audit

open Project

inductive Stage where
  | sources
  | complexity
  | weakness
  | history
  | hotspots
deriving DecidableEq, Repr

def Stage.name : Stage → String
  | .sources => "structure"
  | .complexity => "complexity"
  | .weakness => "weakness"
  | .history => "history"
  | .hotspots => "hotspots"

/-- Which part of an audit is wanted. -/
inductive Mode where
  | sources
  | history
  | full
deriving DecidableEq, Repr

/-- The stages of a mode, with or without those that need a history. -/
def Mode.stages (mode : Mode) (history : Bool) : List Stage :=
  let all : List Stage := match mode with
    | .sources => [.sources, .complexity, .weakness]
    | .history => [.sources, .history]
    | .full => [.sources, .complexity, .weakness, .history, .hotspots]
  if history then all else all.filter (· != .history)

/-- What an audit looks at. -/
structure Subject where
  root : String
  place : Option Files.Place
  config : Config
  entries : List History.Entry := []
  measured : Measured := {}

/-- The project with what its commits say. No working tree is looked at, so that what was said of
one is dropped. -/
def withCommits (p : Project) (s : Subject) : Project :=
  (p.withHistory s.config s.entries).clear .dirtyWorktree

def Stage.run (stage : Stage) (s : Subject) (p : Project) : Except Failure Project :=
  match stage with
  | .sources => do return p.withSources s.config.walk.hash (← Audit.sources s.config s.root s.place)
  | .complexity => .ok (p.withComplexity s.place s.measured)
  | .weakness => .ok (p.withMarkers s.place)
  | .history => .ok (withCommits p s)
  | .hotspots => .ok (p.withHotspots s.config.hotspots.topN)

/-- The result of an audit, with the stages that failed. -/
structure Outcome where
  project : Project
  failed : List (Stage × Failure) := []

def Outcome.next (s : Subject) (o : Outcome) (stage : Stage) : Outcome :=
  match stage.run s o.project with
  | .ok p => { o with project := p }
  | .error e => { o with failed := o.failed ++ [(stage, e)] }

/-- Runs stages one after another. -/
def run (stages : List Stage) (s : Subject) (p : Project) : Outcome :=
  stages.foldl (Outcome.next s) ⟨p, []⟩

/-- The numbers of what was found, and the stages that failed. -/
def Outcome.summary (o : Outcome) : String :=
  let p := o.project
  let failed := if o.failed.isEmpty then []
    else ["failed: " ++ ", ".intercalate (o.failed.map (·.1.name))]
  ", ".intercalate <|
    [s!"{p.files.size} files", s!"{p.commits.size} commits",
      s!"{p.contributors.size} contributors", s!"{p.coupling.size} coupling edges",
      s!"{p.issues.size} issues"] ++ failed

end RepoAudit.Audit
