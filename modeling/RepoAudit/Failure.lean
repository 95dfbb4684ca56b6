import RepoAudit.Decimal.Shortest
import RepoAudit.Rdf.Turtle.Cursor

/-!
# Failures

The causes for which a command stops, and the one text that is shown for each.
-/

namespace RepoAudit

/-- Why the text of a configuration is refused. -/
inductive ConfigFault where
  | unreadable
  /-- The share of lines that makes an owner is no share. -/
  | ownershipThreshold (x : Float)

def ConfigFault.message : ConfigFault → String
  | .unreadable => "the text is not a configuration"
  | .ownershipThreshold x =>
    s!"history.ownership_threshold must be within 0..=1, got {Decimal.plain x}"

/-- Why a document is refused as a report. -/
inductive ReportFault where
  | unreadable
  | notAProject
deriving DecidableEq, Repr

def ReportFault.message : ReportFault → String
  | .unreadable => "the text is not a report"
  | .notAProject => "document is not a repo:Project"

/-- Why the operating system refuses to give the content of a file. -/
inductive ReadFault where
  | absent
  | isDirectory
  | notText
deriving DecidableEq, Repr

def ReadFault.message : ReadFault → String
  | .absent => "No such file or directory (os error 2)"
  | .isDirectory => "Is a directory (os error 21)"
  | .notText => "stream did not contain valid UTF-8"

/-- Why a path given to a command is of no use to it. -/
inductive ArgumentFault where
  | notADirectory (path : String)
  | notAReport (path : String)
  | cannotGate (path : String)
deriving DecidableEq, Repr

def ArgumentFault.message : ArgumentFault → String
  | .notADirectory path => s!"{path} is not a directory"
  | .notAReport path => s!"{path} is not a JSON-LD report"
  | .cannotGate path =>
    s!"cannot gate {path}: expected a repository, a .ttl file or a .jsonld report"

inductive Failure where
  | missingPath (path : String)
  | shapesNotFound (path : String)
  | noShapeFiles (path : String)
  | turtle (failure : Rdf.Turtle.Failure)
  | config (path : String) (fault : ConfigFault)
  | report (path : String) (fault : ReportFault)
  | argument (fault : ArgumentFault)
  | unreadable (fault : ReadFault)
  | cannotRead (path : String)
  | cannotReadShapes (path : String)
  | cannotWrite (path : String)
  | cannotCreate (path : String)
  /-- The root of a project is gone. -/
  | noRoot (path : String)
  | severity (name : String)
  | algorithm (name : String)
  | format (name : String)
  | date (text : String)
  /-- A shape is part of itself. The program does not come back from this. -/
  | endlessShapes

/-- What is shown for a failure. -/
def Failure.message : Failure → String
  | .missingPath path => s!"Path does not exist: {path}"
  | .shapesNotFound path => s!"Shapes not found: {path}"
  | .noShapeFiles path => s!"No shape files (*.ttl) found in {path}"
  | .turtle failure => failure.message
  | .config path fault => s!"Invalid config {path}: {fault.message}"
  | .report path fault => s!"Invalid JSON-LD report {path}: {fault.message}"
  | .argument fault => s!"Invalid argument: {fault.message}"
  | .unreadable fault => fault.message
  | .cannotRead path => s!"Failed to read {path}"
  | .cannotReadShapes path => s!"Failed to read shapes {path}"
  | .cannotWrite path => s!"Failed to write {path}"
  | .cannotCreate path => s!"Failed to create {path}"
  | .noRoot path => s!"Not a directory: {path}"
  | .severity name => s!"Unknown severity '{name}'"
  | .algorithm name => s!"Unknown hash algorithm '{name}'. Valid values: sha256, xxh3"
  | .format name => s!"Unknown format '{name}'. Valid formats: jsonld, turtle, markdown"
  | .date text => s!"Invalid date '{text}': expected RFC 3339 or YYYY-MM-DD"
  | .endlessShapes => "stack overflow"

end RepoAudit
