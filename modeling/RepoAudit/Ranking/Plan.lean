import RepoAudit.Decimal.Places
import RepoAudit.Json.Printer
import RepoAudit.Ranking.Hotness
import RepoAudit.Text.Split

/-!
# Plans of work

A plan has one task for each file with a hotspot or with a grave marker. Hotspots come first, the
hottest of them before others; the rest follows by severity.
-/

namespace RepoAudit.Ranking

open Project

/-- The size of a task. -/
inductive Effort where
  | small
  | medium
  | large
deriving DecidableEq, Repr

namespace Effort

def ofLoc (loc : Nat) : Effort := if loc < 200 then .small else if loc < 500 then .medium else .large

def name : Effort → String
  | .small => "S"
  | .medium => "M"
  | .large => "L"

end Effort

structure Task where
  file : String
  /-- Whether the file is a hotspot. -/
  hot : Bool
  severity : Severity
  hotness : Float
  effort : Effort
  reasons : List String
  issues : List String

/-- The tasks in the order in which they are to be done. -/
structure Plan where
  project : String
  tasks : List Task

/-- Whether an issue calls for work on its file. -/
def isRelevant (i : Issue) : Bool :=
  match i.kind with
  | .hotspot => true
  | .todo => Severity.medium.rank ≤ i.severity.rank
  | _ => false

def hotspotReason (f : File) : String :=
  let complexity := match f.complexity with
    | some c => ", complexity " ++ Decimal.fixed 0 c
    | none => ""
  s!"Hotspot (hotness {Decimal.fixed 2 f.hotness}): churn {f.churn}, {f.loc} LOC{complexity}"

/-- The task that the issues of a file amount to; hotspots are the first reasons. -/
def task? (f : File) (issues : List Issue) : Option Task :=
  match issues with
  | [] => none
  | first :: rest =>
    let (hot, marked) := issues.partition (·.kind == .hotspot)
    some {
      file := f.path
      hot := !hot.isEmpty
      severity := rest.foldl (fun s i => s.max i.severity) first.severity
      hotness := f.hotness
      effort := .ofLoc f.loc
      reasons := hot.map (fun _ => hotspotReason f) ++ marked.map (·.title)
      issues := issues.map (·.id) }

/-- The order in which tasks are done. -/
def Task.order (a b : Task) : Ordering :=
  (compare b.hot a.hot).then <|
    (if a.hot then descending a.hotness b.hotness else .eq).then <|
      (compare b.severity.rank a.severity.rank).then (compare a.file b.file)

/-- All tasks of a project, in order. -/
def tasks (p : Project) : List Task :=
  let relevant := p.issues.values.filter isRelevant
  let unordered := p.files.entries.filterMap fun (key, f) =>
    task? f (relevant.filter (·.file == some key))
  unordered.mergeSort fun a b => (a.order b).isLE

/-- The plan of a project, with at most `top` tasks if that is given. -/
def plan (p : Project) (top : Option Nat) : Plan :=
  let all := tasks p
  { project := p.name
    tasks := match top with
      | some n => all.take n
      | none => all }

namespace Plan

/-- The tasks with their ranks. -/
def ranks (p : Plan) : List (Nat × Task) := (List.range' 1 p.tasks.length).zip p.tasks

/-- Writes a bar in a table so that it does not end a cell. -/
def escapeBar (s : String) : String := String.ofList (Text.replaceChar '|' ['\\', '|'] s.toList)

def row (rank : Nat) (t : Task) : String :=
  let reasons := escapeBar ("; ".intercalate t.reasons)
  s!"| {rank} | `{escapeBar t.file}` | {t.effort.name} | {t.severity.name} | {reasons} |
"

def toMarkdown (p : Plan) : String :=
  s!"# Refactor plan: {p.project}

" ++
  if p.tasks.isEmpty then "Nothing to do: no hotspots or significant markers.
"
  else
    "| # | File | Effort | Severity | Reason |
|---|------|--------|----------|--------|
" ++ String.join (p.ranks.map fun (rank, t) => row rank t)

def taskJson (rank : Nat) (t : Task) : Json :=
  .object [
    ("rank", .nat rank), ("file", .string t.file), ("severity", .string t.severity.name),
    ("hotness", .float t.hotness), ("effort", .string t.effort.name),
    ("reasons", .strings t.reasons), ("issues", .strings t.issues)]

def toJson (p : Plan) : Json :=
  .object [
    ("project", .string p.project),
    ("tasks", .array (p.ranks.map fun (rank, t) => taskJson rank t))]

end Plan
end RepoAudit.Ranking
