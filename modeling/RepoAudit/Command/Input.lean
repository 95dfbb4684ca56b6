import RepoAudit.Config.Reader
import RepoAudit.Failure
import RepoAudit.Files.Disk
import RepoAudit.Report.Document
import RepoAudit.Shacl.Validator
import RepoAudit.Time.Instant

/-!
# What commands read

Configurations, shapes, data graphs and reports are read, each with the failures that belong to
it. Commands look up places, write files and ask for the time. They are written over any machine
that offers this, so that they run on a disk that is a value as well as on a real one.
-/

namespace RepoAudit.Command

/-! ### What a command needs of a machine -/

structure Host (m : Type → Type) where
  /-- What a path leads to. -/
  place? : String → m (Option Files.Place)
  /-- Writes a text to a file, for which directories are made. -/
  write : String → String → m (Except Failure Unit)
  now : m Time.Instant

/-- A part of a command. It prints, and it may fail; what it printed before that stays. -/
abbrev Act (m : Type → Type) := ExceptT Failure (StateT String m)

variable {m : Type → Type} [Monad m]

/-- Asks the machine. -/
def ask (question : m α) : Act m α := ExceptT.lift (StateT.lift question)

def print (text : String) : Act m Unit := modify (· ++ text)

def failing (e : Except Failure α) : Act m α :=
  match e with
  | .ok a => pure a
  | .error failure => throw failure

/-- A disk without the file that a path leads to, in whose place there is a text. -/
def written (path text : String) (d : Files.Disk) : Except Failure Unit × Files.Disk :=
  let dir := Files.holder path.toList
  let (d, made) := if dir.isEmpty then (d, true) else d.makeDirectories dir
  if made then
    match d.writeFile? path.toList (Text.encoded text.toList) with
    | some d => (.ok (), d)
    | none => (.error (.cannotWrite path), d)
  else (.error (.cannotCreate (String.ofList dir)), d)

/-- A machine whose disk is a value and whose time stands still. -/
def Host.ofDisk (now : Time.Instant) : Host (StateM Files.Disk) where
  place? path := do return (← get).place? path
  write path text := modifyGet (written path text)
  now := pure now

open Files

/-! ### Inputs -/

/-- The text of the file at a place. -/
def textAt (place : Option Place) : Except ReadFault String :=
  match place.map Place.node with
  | none => .error .absent
  | some (.directory _) => .error .isDirectory
  | some (.file content) => match Text.decoded? content with
    | some cs => .ok (String.ofList cs)
    | none => .error .notText

/-- The name of the file in a directory that holds its configuration. -/
def configName : String := "repoq.toml"

/-- The configuration in a file. -/
def configAt (path : String) (place : Place) : Except Failure Config := do
  let text ← (textAt place).mapError .unreadable
  (Config.read text).mapError (.config path)

def hasShapes (name : String) : Bool :=
  match extension? name.toList with
  | some ext => ext.map Char.toLower == "ttl".toList
  | none => false

/-- The files of shapes that a path stands for: itself, or those in a directory. -/
def shapeFiles (path : String) (place : Option Place) : Except Failure (List String) :=
  match place.map Place.node with
  | none => .error (.shapesNotFound path)
  | some (.file _) => .ok [path]
  | some (.directory entries) =>
    let names := (entries.filter fun e => e.2.isFile && hasShapes e.1).map (·.1)
    if names.isEmpty then .error (.noShapeFiles path)
    else .ok ((names.mergeSort (· ≤ ·)).map (joined path))

/-- The data graph in a file. -/
def dataAt (path : String) (place : Option Place) : Except Failure Rdf.Graph := do
  match place.map Place.node with
  | some (.file _) =>
    let text ← (textAt place).mapError fun _ => .cannotRead path
    (Rdf.Turtle.read text path).mapError .turtle
  | _ => throw (.missingPath path)

/-- The project of the report in a file. -/
def reportAt (path : String) (place : Option Place) : Except Failure Project := do
  if place.isNone then throw (.missingPath path)
  let text ← (textAt place).mapError fun _ => .cannotRead path
  (Report.project text).mapError (.report path)

/-- Adds the shapes in a file to a graph. -/
def withShapes (g : Rdf.Graph) (path : String) (place : Option Place) :
    Except Failure Rdf.Graph := do
  let text ← (textAt place).mapError fun _ => .cannotReadShapes path
  match Rdf.Turtle.readInto g text path with
  | (none, g) => return g
  | (some failure, _) => throw (.turtle failure)

variable (host : Host m)

/-- The configuration of a directory. One that is asked for by its path must be there, the one in
the directory need not. -/
def config (dir : String) (wanted : Option String) : Act m Config := do
  let path := wanted.getD (joined dir configName)
  match ← ask (host.place? path) with
  | some place => failing (configAt path place)
  | none => if wanted.isSome then throw (.missingPath path) else return {}

/-- Adds the shapes of a path to a graph, and the files in which they are. -/
def addShapes (known : Rdf.Graph × List String) (path : String) :
    Act m (Rdf.Graph × List String) := do
  let files ← failing (shapeFiles path (← ask (host.place? path)))
  files.foldlM (fun (g, names) file => do
    return (← failing (withShapes g file (← ask (host.place? file))), names ++ [file])) known

/-- The validator with the shapes of some paths. -/
def validatorOf (paths : List String) : Act m Shacl.Validator := do
  let (g, names) ← paths.foldlM (addShapes host) (∅, [])
  failing (Shacl.Validator.ofGraph g names)

/-- The validator with the shapes that are asked for, or else those of the configuration, or else
the bundled ones. -/
def validator (dir : String) (wanted : List String) (c : Config) (inference : Bool) :
    Act m Shacl.Validator := do
  let v ←
    if !wanted.isEmpty then validatorOf host wanted
    else if !c.gate.shapes.isEmpty then validatorOf host (c.gate.shapes.map (joined dir))
    else failing Shacl.Validator.bundled
  return { v with inference }

def data (path : String) : Act m Rdf.Graph := do
  failing (dataAt path (← ask (host.place? path)))

def report (path : String) : Act m Project := do
  failing (reportAt path (← ask (host.place? path)))

end RepoAudit.Command
