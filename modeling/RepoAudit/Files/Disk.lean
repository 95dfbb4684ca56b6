import RepoAudit.Files.Node
import RepoAudit.Text.Utf8

/-!
# A disk with a working directory

Reading and writing by path, from the working directory unless the path begins with a slash.
-/

namespace RepoAudit.Files

open Text

structure Disk where
  root : Entries
  /-- The names that lead to the working directory. -/
  working : List String

namespace Disk

def directoryAt (d : Disk) (names : List String) : Bool :=
  match d.root.find? names with
  | some n => n.isDirectory
  | none => false

/-- Goes one step along a path. -/
def step? (d : Disk) (names : List String) (name : List Char) : Option (List String) :=
  if !d.directoryAt names then none
  else if name.isEmpty || name == ['.'] then some names
  else if name == ['.', '.'] then some names.dropLast
  else
    let names := names ++ [String.ofList name]
    (d.root.find? names).map fun _ => names

/-- Where a path begins, and its steps. -/
def start (d : Disk) : List Char → List String × List (List Char)
  | '/' :: rest => ([], fields '/' rest)
  | [] => (d.working, [])
  | path => (d.working, fields '/' path)

/-- The names of the place that a path leads to. -/
def resolve? (d : Disk) (path : String) : Option (List String) :=
  if path.isEmpty then none
  else
    let (names, steps) := d.start path.toList
    steps.foldlM d.step? names

/-- What the directories above a place hold, the nearest one first. -/
def above (d : Disk) (names : List String) : List Entries :=
  ((List.range names.length).reverse).filterMap fun n =>
    (d.root.find? (names.take n)).map Node.entries

/-- The place that a path leads to. -/
def place? (d : Disk) (path : String) : Option Place := do
  let names ← d.resolve? path
  let node ← d.root.find? names
  return ⟨names, d.above names, node⟩

/-! ### Writing -/

/-- Goes one step and makes a directory if there is nothing. -/
def makeStep (state : Disk × Option (List String)) (name : List Char) :
    Disk × Option (List String) :=
  match state with
  | (d, none) => (d, none)
  | (d, some names) =>
    match d.step? names name with
    | some names => (d, if d.directoryAt names then some names else none)
    | none =>
      let names := names ++ [String.ofList name]
      match Entries.put (.directory []) names d.root with
      | some root =>
        if (d.root.find? names).isNone then ({ d with root }, some names) else (d, none)
      | none => (d, none)

/-- Makes the directories along a path; the second part tells whether all are there. -/
def makeDirectories (d : Disk) (path : List Char) : Disk × Bool :=
  let (names, steps) := d.start path
  let (d, made) := steps.foldl makeStep (d, some names)
  (d, made.isSome)

/-- Writes a file into a directory that is there. -/
def writeFile? (d : Disk) (path : List Char) (content : List UInt8) : Option Disk := do
  let (names, steps) := d.start path
  let name ← steps.getLast?
  if name.isEmpty || name == ['.'] || name == ['.', '.'] then none
  else
    let dir ← steps.dropLast.foldlM d.step? names
    let names := dir ++ [String.ofList name]
    if !d.directoryAt dir || d.directoryAt names then none
    else
      let root ← Entries.put (.file content) names d.root
      return { d with root }

/-- Removes what a path leads to. -/
def remove (d : Disk) (path : String) : Disk :=
  match d.resolve? path with
  | some names => { d with root := Entries.remove names d.root }
  | none => d

end Disk
end RepoAudit.Files
