import RepoAudit.Text.Split

/-!
# Paths

The parts of a path with slashes between its names.
-/

namespace RepoAudit.Files

open Text

/-- The last name of a path, unless that leads up. Slashes at the end and single dots do not
count. -/
def fileName? (path : List Char) : Option (List Char) :=
  match ((fields '/' path).filter fun s => !s.isEmpty && s != ['.']).getLast? with
  | some name => if name == ['.', '.'] then none else some name
  | none => none

/-- What follows the last dot of the last name, unless the name begins with that dot. -/
def extension? (path : List Char) : Option (List Char) := do
  let name ← fileName? path
  let (stem, ext) ← cutLast? '.' name
  if stem.isEmpty then none else some ext

/-- A path with slashes only and without leading single dots. -/
def normalized (path : String) : String :=
  String.ofList (dropAllStart ['.', '/'] (replaceChar '\\' ['/'] path.toList))

/-- The path of the directory that holds a file; empty at the root. -/
def parent (path : List Char) : List Char :=
  match cutLast? '/' path with
  | some (dir, _) => dir
  | none => []

/-- Drops slashes and single dots at the start of a path that is written backwards. -/
def trimBackwards : List Char → List Char
  | '/' :: rest => if rest.isEmpty then ['/'] else trimBackwards rest
  | '.' :: '/' :: rest => if rest.isEmpty then ['/'] else trimBackwards rest
  | cs => cs

/-- Drops slashes and single dots at the end of a path. -/
def trimEnd (path : List Char) : List Char := (trimBackwards path.reverse).reverse

/-- The path of the directory that holds what a path leads to, as far as the path tells. -/
def holder (path : List Char) : List Char :=
  match cutLast? '/' (trimEnd path) with
  | some (dir, _) => if dir.isEmpty then ['/'] else trimEnd dir
  | none => []

/-- A path as it is seen from a directory. -/
def joined (dir path : String) : String :=
  if path.startsWith "/" || dir.isEmpty then path
  else if dir.endsWith "/" then dir ++ path
  else dir ++ "/" ++ path

/-- Puts a name below a directory; the root has no name. -/
def below (dir name : List Char) : List Char :=
  if dir.isEmpty then name else dir ++ '/' :: name

end RepoAudit.Files
