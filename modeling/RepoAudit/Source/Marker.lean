import RepoAudit.Project.Severity
import RepoAudit.Source.Literal
import RepoAudit.Text.Blank
import RepoAudit.Text.Search
import RepoAudit.Text.Split

/-!
# Task markers

Comments can mark work that is left to do or code that is out of use. Only the comment of a line
is searched, and only its first marker counts.
-/

namespace RepoAudit.Source

open Text Project

structure Marker where
  /-- The number of the line, from one. -/
  line : Nat
  tag : String
  severity : Severity
  text : String
deriving DecidableEq, Repr

def markerSeverity (tag : String) : Severity :=
  if ["FIXME", "HACK", "XXX", "BUG"].contains tag then .medium else .low

/-! ### Comments -/

/-- What begins a line that belongs to a comment as a whole. -/
def blockMarks : List (List Char) :=
  ["/*".toList, "*".toList, "<!--".toList, "\"\"\"".toList, "'''".toList]

/-- What begins a comment up to the end of the line, besides two slashes. -/
def hashLanguages : List String := ["python", "ruby", "shell", "toml", "yaml", "php"]

/-- The number of characters in front of the first occurrence of a word. -/
def indexOf? (word cs : List Char) : Option Nat := (cutWord? word cs).map (·.1.length)

/-- The place at which the comment of a line begins; marks within literals do not count. -/
def commentStart? (language : String) (line : List Char) : Option Nat :=
  let masked := maskLiterals line
  let marks := if hashLanguages.contains language then ["#", "//"] else ["//"]
  let found := marks.filterMap fun m => indexOf? m.toList masked
  match found.min? with
  | some i => some i
  | none =>
    if language == "sql" || language == "lua" then indexOf? "--".toList masked else none

/-- The comment of a line. -/
def comment? (language : String) (line : List Char) : Option (List Char) :=
  let trimmed := trimStart line
  if blockMarks.any (·.isPrefixOf trimmed) then some trimmed
  else (commentStart? language line).map line.drop

/-! ### Markers -/

/-- Finds the tag of a marker at a place. -/
def tagAt : Step String := fun before cs =>
  match dropStart? "@deprecated".toList cs with
  | some rest => some ("DEPRECATED", rest)
  | none => do
    let (word, rest) ← wordAt before cs
    let word := String.ofList word
    if ["TODO", "FIXME", "HACK", "XXX", "DEPRECATED"].contains word then some (word, rest)
    else if word == "BUG" && rest.head? = some ':' then some (word, rest)
    else none

/-- Whether a line is an attribute that puts an item of Rust out of use. -/
def isDeprecation (line : List Char) : Bool :=
  match dropStart? "#[deprecated".toList (trimStart line) with
  | some rest => noWord rest.head?
  | none => false

/-- The longest text of a marker that is kept. -/
def maxMarkerText : Nat := 120

/-- The marker of a line with a number. -/
def marker? (language : String) (number : Nat) (line : List Char) : Option Marker :=
  if language == "rust" && isDeprecation line then
    some ⟨number, "DEPRECATED", .low, String.ofList (trim line)⟩
  else do
    let comment ← comment? language line
    let tag ← (finds tagAt comment).head?
    some ⟨number, tag, markerSeverity tag, String.ofList ((trim comment).take maxMarkerText)⟩

/-- The markers of a file. -/
def markers (language content : String) : List Marker :=
  let ls := lines content.toList
  (ls.zip (List.range ls.length)).filterMap fun (line, i) => marker? language (i + 1) line

end RepoAudit.Source
