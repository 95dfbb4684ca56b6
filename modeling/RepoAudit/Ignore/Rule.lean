import RepoAudit.Files.Node
import RepoAudit.Ignore.Glob
import RepoAudit.Text.Blank

/-!
# Rules of ignore files

Every line of an ignore file that is neither blank nor a comment is a rule for paths below the
directory of the file. Of several rules that match a path the last one decides.
-/

namespace RepoAudit.Ignore

open Text Files

structure Rule where
  glob : Glob
  /-- Whether a path that matches is kept and not ignored. -/
  keeps : Bool
  directoriesOnly : Bool

/-- Blanks at the end of a line do not count unless a backslash precedes the last one. -/
def trimRule (line : List Char) : List Char :=
  if (dropEnd? ['\\', ' '] line).isSome then line else Text.trimEnd line

/-- Removes a slash at the end, and a backslash that escapes it; tells whether there was one. -/
def dropSlash (line : List Char) : Bool × List Char :=
  match dropEnd? ['/'] line with
  | some line => (true, (dropEnd? ['\\'] line).getD line)
  | none => (false, line)

/-- Lets a pattern without slashes match at any depth, and one that ends in two stars only what is
inside a directory. -/
def completed (anchored : Bool) (pattern : List Char) : List Char :=
  let deep := "**/".toList
  let pattern :=
    if anchored || pattern.contains '/' || deep.isPrefixOf pattern || pattern == ['*', '*'] then
      pattern
    else deep ++ pattern
  if (dropEnd? "/**".toList pattern).isSome then pattern ++ ['/', '*'] else pattern

/-- The parts of a line: whether it keeps, whether a slash anchors it, and the pattern. -/
def signs (line : List Char) : Bool × Bool × List Char :=
  match line with
  | '\\' :: '!' :: rest => (false, false, '!' :: rest)
  | '\\' :: '#' :: rest => (false, false, '#' :: rest)
  | _ =>
    let (keeps, line) := match line with
      | '!' :: rest => (true, rest)
      | _ => (false, line)
    match line with
    | '/' :: rest => (keeps, true, rest)
    | _ => (keeps, false, line)

/-- Reads a line; one that is no valid pattern is passed over. -/
def rule? (line : List Char) : Option Rule := do
  if line.head? == some '#' then none
  let line := trimRule line
  if line.isEmpty then none
  let (keeps, anchored, line) := signs line
  let (directoriesOnly, pattern) := dropSlash line
  let glob ← Glob.ofText? (completed anchored pattern)
  return ⟨glob, keeps, directoriesOnly⟩

/-- The lines of a file up to the first that is not encoded in UTF-8. -/
def readableLines (content : List UInt8) : List (List Char) :=
  let pieces := decodedPieces content
  let text := (pieces.takeWhile Option.isSome).filterMap id
  if pieces.all Option.isSome then lines text
  else (fields '\n' text).dropLast.map dropReturn

/-- The rules of a file; a mark of the order of bytes at its start does not count. -/
def rules (content : List UInt8) : List Rule :=
  let ls := match readableLines content with
    | first :: rest => dropAllStart ['\ufeff'] first :: rest
    | [] => []
  ls.filterMap rule?

def Rule.applies (r : Rule) (path : List UInt8) (isDirectory : Bool) : Bool :=
  (isDirectory || !r.directoriesOnly) && r.glob.isMatch path

/-- What the last matching rule says: whether the path is kept; nothing if none matches. -/
def kept? (rs : List Rule) (path : List UInt8) (isDirectory : Bool) : Option Bool :=
  (rs.reverse.find? (·.applies path isDirectory)).map (·.keeps)

/-! ### Rules by directory -/

/-- The files with rules, in the order of their precedence, as paths from their directory. -/
def ruleFiles : List (List String) :=
  [[".repoqignore"], [".ignore"], [".gitignore"], [".git", "info", "exclude"]]

/-- The rules of a directory, by the kind of their file. -/
structure RuleSet where
  /-- How many names lead to the directory. -/
  depth : Nat
  kinds : List (List Rule)

def RuleSet.ofEntries (depth : Nat) (es : Entries) : RuleSet :=
  ⟨depth, ruleFiles.map fun file => (((es.find? file).bind Node.content?).map rules).getD []⟩

/-- What rule sets say of the entry at a list of names: the kind of file with the highest
precedence decides, and within it the nearest directory, which comes first. -/
def keptBy? (sets : List RuleSet) (names : List String) (isDirectory : Bool) : Option Bool :=
  (List.range ruleFiles.length).firstM fun kind =>
    sets.firstM fun s =>
      let path := encoded (join ['/'] ((names.drop s.depth).map String.toList))
      kept? (s.kinds.getD kind []) path isDirectory

/-- Whether an entry is left out: by a rule, or because its name begins with a dot and no rule
keeps it. -/
def isIgnored (sets : List RuleSet) (names : List String) (isDirectory : Bool) : Bool :=
  match keptBy? sets names isDirectory with
  | some keeps => !keeps
  | none => match names.getLast? with
    | some name => name.startsWith "."
    | none => false

/-! ### Walking -/

mutual

/-- The files of a tree that are not ignored, with the names that lead to them. -/
def walkNode (sets : List RuleSet) (names : List String) :
    Node → List (List String × List UInt8)
  | .file content => [(names, content)]
  | .directory es => walkEntries (.ofEntries names.length es :: sets) names es

def walkEntries (sets : List RuleSet) (names : List String) :
    List (String × Node) → List (List String × List UInt8)
  | [] => []
  | (name, n) :: rest =>
    let here := names ++ [name]
    (if isIgnored sets here n.isDirectory then [] else walkNode sets here n) ++
      walkEntries sets names rest

end

/-- The files at a place that are not ignored, by the names that lead to them from there. Rules of
the directories above hold too. -/
def files (p : Place) : List (List String × List UInt8) :=
  let depth := p.names.length
  let sets := p.above.mapIdx fun i es => RuleSet.ofEntries (depth - 1 - i) es
  (walkNode sets p.names p.node).map fun (names, content) => (names.drop depth, content)

end RepoAudit.Ignore
