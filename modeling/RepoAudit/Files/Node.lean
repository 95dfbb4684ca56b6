import RepoAudit.Files.Path

/-!
# Trees of files

A tree holds files with their bytes and directories with named entries. Paths are resolved step by
step: every step but the last must lead to a directory, and two dots lead back up.
-/

namespace RepoAudit.Files

inductive Node where
  | file (content : List UInt8)
  | directory (entries : List (String × Node))
deriving Inhabited

/-- What a directory holds, by name. -/
abbrev Entries := List (String × Node)

namespace Node

def isDirectory : Node → Bool
  | .directory _ => true
  | .file _ => false

def isFile (n : Node) : Bool := !n.isDirectory

def entries : Node → Entries
  | .directory es => es
  | .file _ => []

def content? : Node → Option (List UInt8)
  | .file content => some content
  | .directory _ => none

end Node

namespace Entries

/-- What is found along a list of names. -/
def find? (es : Entries) : List String → Option Node
  | [] => some (.directory es)
  | name :: rest => match es.lookup name with
    | some (.directory inner) => find? inner rest
    | some (.file content) => if rest.isEmpty then some (.file content) else none
    | none => none

/-- Replaces the entry with a name. -/
def set (name : String) (n : Node) : Entries → Entries
  | [] => [(name, n)]
  | (name', n') :: rest => if name' == name then (name, n) :: rest else (name', n') :: set name n rest

/-- Puts a node at a list of names, all but the last of which must be directories. -/
def put (n : Node) : List String → Entries → Option Entries
  | [], _ => none
  | [name], es => some (set name n es)
  | name :: next :: rest, es => match es.lookup name with
    | some (.directory inner) => (put n (next :: rest) inner).map fun inner =>
      set name (.directory inner) es
    | _ => none

/-- Removes what is at a list of names. -/
def remove : List String → Entries → Entries
  | [], es => es
  | [name], es => es.filter (·.1 != name)
  | name :: next :: rest, es => match es.lookup name with
    | some (.directory inner) => set name (.directory (remove (next :: rest) inner)) es
    | _ => es

end Entries

/-- A place in a tree: the names that lead to it from the root, what the directories above it hold,
the nearest one first, and what is there. -/
structure Place where
  names : List String
  above : List Entries
  node : Node

/-- A place as an absolute path. -/
def absolutePath (names : List String) : String := "/" ++ "/".intercalate names

def Place.path (p : Place) : String := absolutePath p.names

/-- What a relative path leads to below a place; a path that leads out of it leads nowhere. -/
def Place.below? (p : Place) (path : String) : Option Node :=
  let step (names : Option (List String)) (name : List Char) : Option (List String) := do
    let names ← names
    if name.isEmpty || name == ['.'] then some names
    else if name == ['.', '.'] then if names.isEmpty then none else some names.dropLast
    else some (names ++ [String.ofList name])
  ((Text.fields '/' path.toList).foldl step (some [])).bind p.node.entries.find?

/-- The bytes of the file that a relative path leads to. -/
def Place.content? (p : Place) (path : String) : Option (List UInt8) :=
  (p.below? path).bind Node.content?

end RepoAudit.Files
