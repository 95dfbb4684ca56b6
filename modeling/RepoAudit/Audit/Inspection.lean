import RepoAudit.Files.Node
import RepoAudit.Measure.Metric
import RepoAudit.Project.Basic
import RepoAudit.Source.Complexity
import RepoAudit.Source.Marker
import RepoAudit.Text.Utf8

/-!
# Complexity and markers of files

What is read off the content of each file that the project already has. A file that cannot be read
keeps what was found before.
-/

namespace RepoAudit.Audit

open Project Files

/-- The text of a file of the project. -/
def textOf? (place : Option Place) (f : File) : Option String :=
  (place.bind (·.content? f.path)).map fun content => String.ofList (Text.decoded content)

/-- What another program measured, by path. -/
structure Measured where
  complexities : SortedMap String Float := ∅
  maintainabilities : SortedMap String Float := ∅

/-- A file with its complexity, if its language has one and its text can be read. -/
def measure (place : Option Place) (measured : Measured) (f : File) : File :=
  let found := do
    let language ← f.language
    let _ ← Source.decisionRule? language
    let text ← textOf? place f
    measured.complexities.get? f.path <|> Source.complexity? language text
  match found with
  | some c =>
    { f with
      complexity := some c
      maintainability := some <|
        (measured.maintainabilities.get? f.path).getD (Source.maintainability c f.loc) }
  | none => f

/-! ### Markers -/

/-- Languages whose files are not searched for markers. -/
def unmarkedLanguages : List String := ["markdown", "json"]

/-- How many markers an issue quotes. -/
def maxQuoted : Nat := 5

/-- The markers of a file, if it is searched. -/
def markers? (place : Option Place) (f : File) : Option (List Source.Marker) := do
  let language ← f.language
  if unmarkedLanguages.contains language then none
  else
    let text ← textOf? place f
    return Source.markers language text

def quoted (m : Source.Marker) : String := s!"line {m.line}: {m.text}"

/-- The issue of a file with markers. -/
def markerIssue? (f : File) (markers : List Source.Marker) : Option Issue :=
  match markers with
  | [] => none
  | first :: rest =>
    let more := if maxQuoted < markers.length then
        [s!"... and {markers.length - maxQuoted} more"]
      else []
    some {
      id := issueId .todo f.path
      kind := .todo
      severity := rest.foldl (fun s m => s.max m.severity) first.severity
      title := s!"{markers.length} task marker(s) in {f.path}"
      description := "\n".intercalate ((markers.take maxQuoted).map quoted ++ more)
      file := some f.id
      score := some (Float.ofNat markers.length) }

end RepoAudit.Audit

namespace RepoAudit

/-- The project with the complexity of its files. -/
def Project.withComplexity (p : Project) (place : Option Files.Place) (measured : Audit.Measured) :
    Project :=
  { p with files := p.files.mapValues fun _ f => Audit.measure place measured f }

/-- The project with an issue for each file with markers, in place of earlier ones. -/
def Project.withMarkers (p : Project) (place : Option Files.Place) : Project :=
  let p := p.clear .todo
  let found := p.files.values.map fun f => (f, Audit.markers? place f)
  let counted := p.files.mapValues fun _ f => match Audit.markers? place f with
    | some ms => { f with todoCount := ms.length }
    | none => f
  let issues := found.filterMap fun found => found.2.bind (Audit.markerIssue? found.1)
  { p with files := counted }.recordAll issues

end RepoAudit
