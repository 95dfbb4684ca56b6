import RepoAudit.Failure
import RepoAudit.Files.Path
import RepoAudit.Text.Casing

/-!
# Formats of reports
-/

namespace RepoAudit.Report

inductive Format where
  | jsonLd
  | turtle
  | markdown
deriving DecidableEq, Repr

namespace Format

def all : List Format := [.jsonLd, .turtle, .markdown]

def name : Format → String
  | .jsonLd => "jsonld"
  | .turtle => "turtle"
  | .markdown => "markdown"

/-- The extension of files in a format. -/
def extension : Format → String
  | .jsonLd => "jsonld"
  | .turtle => "ttl"
  | .markdown => "md"

/-- Further names of a format. -/
def otherNames : Format → List String
  | .jsonLd => ["json-ld", "json"]
  | .turtle => ["ttl"]
  | .markdown => ["md"]

/-- Reads the name of a format in any case. -/
def ofName (s : String) : Except Failure Format :=
  let key := Text.lowered s
  match all.find? fun f => f.name == key || f.otherNames.contains key with
  | some f => .ok f
  | none => .error (.format s)

/-- Further extensions of files in a format. -/
def otherExtensions : Format → List String
  | .jsonLd => ["json"]
  | .turtle => []
  | .markdown => ["markdown"]

/-- The format of a file, by the extension of its path. -/
def ofPath? (path : String) : Option Format := do
  let ext ← Files.extension? path.toList
  let ext := Text.lowered (String.ofList ext)
  all.find? fun f => f.extension == ext || f.otherExtensions.contains ext

end Format
end RepoAudit.Report
