import RepoAudit.Decimal.Places
import RepoAudit.Project.Basic
import RepoAudit.Ranking.Hotness
import RepoAudit.Text.Split

/-!
# Reports to be read by people

A summary of a project in sections, with tables of at most ten rows.
-/

namespace RepoAudit.Report.Markdown

open Project

def maxRows : Nat := 10

/-- Text in a cell of a table: bars are escaped and line feeds become blanks. -/
def cell (s : String) : String :=
  String.ofList (Text.replaceChar '\n' [' '] (Text.replaceChar '|' ['\\', '|'] s.toList))

/-- The path of a file by its identifier, whether or not the file is known. -/
def pathOf (p : Project) (file : String) : String :=
  match p.files.get? file with
  | some f => f.path
  | none => String.ofList (Text.dropAllStart "repo:file/".toList file.toList)

def personName (p : Project) (person : Option String) : String :=
  match person.bind p.contributors.get? with
  | some c => c.name
  | none => "-"

def header (p : Project) : String :=
  s!"# RepoQ report: {p.name}

" ++
  (match p.analyzedAt with
    | some at_ => s!"Analyzed: {at_.readable}  
"
    | none => "") ++
  match p.gitHead with
  | some head => "HEAD: `" ++ head ++ "`  
"
  | none => ""

def summaryRow (name value : String) : String := s!"| {name} | {value} |
"

def issuesText (s : IssueSummary) : String :=
  s!"{s.total} ({s.critical} critical, {s.high} high, {s.medium} medium, {s.low} low, {s.info} info)"

def summary (p : Project) : String :=
  "## Summary

| Metric | Value |
|--------|-------|
" ++
  summaryRow "Files" (toString p.files.size) ++
  summaryRow "Modules" (toString p.modules.size) ++
  summaryRow "Lines of code" (toString p.totalLoc) ++
  summaryRow "Commits" (toString p.commits.size) ++
  summaryRow "Contributors" (toString p.contributors.size) ++
  summaryRow "Coupling edges" (toString p.coupling.size) ++
  summaryRow "Dependencies" (toString p.dependencies.size) ++
  summaryRow "Issues" (issuesText p.issueSummary)

def hotspotRow (p : Project) (f : File) : String :=
  let complexity := match f.complexity with
    | some c => Decimal.fixed 0 c
    | none => "-"
  "| `" ++ cell f.path ++
    s!"` | {Decimal.fixed 2 f.hotness} | {f.churn} | {f.loc} | {complexity} | " ++
    cell (personName p f.owner) ++ " |
"

def hotspots (p : Project) : String :=
  let files := (Ranking.hottest p.files.values).take maxRows
  "## Hotspots

" ++
  if files.isEmpty then "No hotspots: no file has both churn and size.
"
  else
    "| File | Hotness | Churn | LOC | Complexity | Owner |
|------|---------|-------|-----|------------|-------|
" ++ String.join (files.map (hotspotRow p))

/-- Heavier pairs come first. -/
def heavierFirst (x y : UnorderedPair × Nat) : Ordering :=
  (compare y.2 x.2).then (compare x.1 y.1)

def couplingRow (p : Project) (e : UnorderedPair × Nat) : String :=
  "| `" ++ cell (pathOf p e.1.first) ++ "` | `" ++ cell (pathOf p e.1.second) ++ s!"` | {e.2} |
"

def coupling (p : Project) : String :=
  let edges := p.coupling.entries.mergeSort fun x y => (heavierFirst x y).isLE
  "## Temporal coupling

" ++
  if edges.isEmpty then "No files changed together.
"
  else
    "| File A | File B | Co-changes |
|--------|--------|------------|
" ++ String.join ((edges.take maxRows).map (couplingRow p))

def issueRow (i : Issue) : String :=
  s!"- **{i.kind.name}** ({i.id}): {cell i.title}
"

def issuesOf (p : Project) (severity : Severity) : String :=
  let issues := p.issues.values.filter (·.severity == severity)
  if issues.isEmpty then ""
  else
    s!"### {severity.name} ({issues.length})

" ++ String.join ((issues.take maxRows).map issueRow) ++
      (if maxRows < issues.length then s!"- ... and {issues.length - maxRows} more
" else "") ++ "
"

def issues (p : Project) : String :=
  "## Issues

" ++
  if p.issues.isEmpty then "No issues found.
"
  else String.join (Severity.all.reverse.map (issuesOf p))

/-- Contributors with more commits come first. -/
def busierFirst (a b : Person) : Ordering := (compare b.commits a.commits).then (compare a.id b.id)

def personRow (c : Person) : String :=
  s!"| {cell c.name} | {c.commits} | {c.linesAdded} | {c.linesDeleted} | {c.owns.size} |
"

def contributors (p : Project) : String :=
  let people := p.contributors.values.mergeSort fun a b => (busierFirst a b).isLE
  "## Contributors

" ++
  if people.isEmpty then "No history analyzed.
"
  else
    "| Name | Commits | +Lines | -Lines | Owned files |
|------|---------|--------|--------|-------------|
" ++ String.join ((people.take maxRows).map personRow)

def validation (v : Validation) : String :=
  let status := if v.conforms then "conforms" else "does not conform"
  s!"## Validation

The project {status} to {v.shapes.length} shape file(s): {v.violations} violation(s), " ++
    s!"{v.warnings} warning(s), {v.infos} info.
"

def footer : String := "---

*Generated by RepoQ*
"

/-- The report of a project. -/
def report (p : Project) : String :=
  let sections := [header p, summary p, hotspots p, coupling p, issues p, contributors p] ++
    (match p.validation with
      | some v => [validation v]
      | none => []) ++ [footer]
  "
".intercalate sections

end RepoAudit.Report.Markdown
