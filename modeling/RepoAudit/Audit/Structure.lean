import RepoAudit.Audit.Selection
import RepoAudit.Project.Basic
import RepoAudit.Source.Import
import RepoAudit.Source.Language
import RepoAudit.Source.Resolve

/-!
# Files, modules and imports

The files of a project are those that were selected and are text. What later stages found out about
a file is kept as long as the file is there.
-/

namespace RepoAudit.Audit

open Project

/-- A file that is text, with its language. -/
structure TextFile where
  path : String
  content : List UInt8
  language : Option String

namespace TextFile

def ofSource? (s : Source) : Option TextFile :=
  if Digest.looksBinary s.content then none
  else some ⟨s.path, s.content, Source.language? s.path⟩

def text (t : TextFile) : String := String.ofList (Text.decoded t.content)

/-- The record of a file, in which what is read off its content is new. -/
def describe (hash : Digest.Algorithm) (before : Option File) (t : TextFile) : File :=
  { before.getD (.ofPath t.path) with
    language := t.language
    loc := Source.lineCount t.text
    sizeBytes := t.content.length
    checksum := some (Digest.checksum hash t.content) }

/-- The imports of a file. -/
def dependencies (tracked : SortedSet String) (t : TextFile) : List Dependency :=
  match t.language with
  | some language =>
    (Source.imports language t.text).map fun target =>
      { source := fileId t.path
        target
        resolved := (Source.resolve? language t.path target tracked).map fileId }
  | none => []

end TextFile

/-- A module with one more file. -/
def addToModule (f : File) (before : Option Module) : Module :=
  let m := before.getD ⟨moduleId f.moduleName, f.moduleName, 0, ∅⟩
  { m with loc := m.loc + f.loc, files := m.files.insert f.id }

/-- The modules of files. -/
def modules (files : List File) : SortedMap String Module :=
  files.foldl (fun ms f => ms.alter (moduleId f.moduleName) fun m => some (addToModule f m)) ∅

/-- The issues without those of files that are gone. -/
def remaining (files : SortedMap String File) (issues : SortedMap String Issue) :
    SortedMap String Issue :=
  issues.filter fun _ i => match i.file with
    | some f => files.contains f
    | none => true

end RepoAudit.Audit

namespace RepoAudit

open Project

/-- The project with these files, and with their modules and imports. If files have gone, so have
their issues. -/
def Project.withSources (p : Project) (hash : Digest.Algorithm) (sources : List Audit.Source) :
    Project :=
  let texts := sources.filterMap Audit.TextFile.ofSource?
  let files := SortedMap.ofList (texts.map fun t =>
    (fileId t.path, t.describe hash (p.files.get? (fileId t.path))))
  let tracked := SortedSet.ofList (files.values.map (·.path))
  { p with
    files
    modules := Audit.modules files.values
    dependencies := .ofList (texts.flatMap (·.dependencies tracked))
    issues :=
      if p.files.keys.all files.contains then p.issues else Audit.remaining files p.issues }

end RepoAudit
