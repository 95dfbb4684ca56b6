import RepoAudit.Decimal.Reader
import RepoAudit.Text.Blank
import RepoAudit.Text.Split
import RepoAudit.Time.Reader

/-!
# Logs of commits

A log is a list of records. A record begins with a line that a record separator opens and unit
separators divide into hash, author, address, time and message; the lines after it count the lines
that were added to and deleted from each file. A change of a renamed file gives its old and its new
path with an arrow between them. What both have in common may be written once, outside braces.
-/

namespace RepoAudit.History

open Text

/-! ### Renamed files -/

def arrow : List Char := " => ".toList

/-- What stands between the first arrow and the next one; all of a text without arrows. -/
def afterArrow (cs : List Char) : List Char :=
  match cutWord? arrow cs with
  | none => cs
  | some (_, rest) => match cutWord? arrow rest with
    | some (new, _) => new
    | none => rest

/-- The parts before, in and after the first braces, if the opening one comes first. -/
def braced? (cs : List Char) : Option (List Char × List Char × List Char) := do
  let (before, rest) ← cut? '{' cs
  if before.contains '}' then none
  else
    let (inner, after) ← cut? '}' rest
    return (before, inner, after)

/-- The new path of a file in a change. -/
def newPathOf (cs : List Char) : List Char :=
  if !occurs arrow cs then cs
  else match braced? cs with
    | some (before, inner, after) =>
      replaceWord ['/', '/'] ['/'] (before ++ afterArrow inner ++ after)
    | none => afterArrow cs

def newPath (path : String) : String := String.ofList (newPathOf path.toList)

/-! ### Records -/

/-- What a commit did to one file. -/
structure Change where
  path : String
  added : Nat
  deleted : Nat
deriving DecidableEq, Repr

/-- A commit as it is found in a history. -/
structure Entry where
  sha : String
  name : String
  email : String
  time : Time.Instant
  /-- The first line of the message. -/
  message : String
  changes : List Change

def recordMark : Char := '\x1e'

def unitMark : Char := '\x1f'

/-- Numbers of lines; what is no number counts as none. -/
def lineNumber (cs : List Char) : Nat := (Decimal.word? 64 (trim cs)).getD 0

def change? (line : List Char) : Option Change :=
  match fieldsAtMost '\t' 3 (trimEnd line) with
  | [added, deleted, path] =>
    some ⟨String.ofList (newPathOf path), lineNumber added, lineNumber deleted⟩
  | _ => none

/-- Reads a record without its changes. -/
def header? (cs : List Char) : Option Entry :=
  match fieldsAtMost unitMark 5 cs with
  | sha :: name :: email :: time :: rest => do
    let time ← Time.rfc3339? time
    return {
      sha := String.ofList sha, name := String.ofList name, email := String.ofList email, time
      message := String.ofList (rest.headD []), changes := [] }
  | _ => none

/-- The lines of each record, apart from its header. What precedes the first header is left
out. -/
def records : List (List Char) → List (List Char × List (List Char))
  | [] => []
  | line :: rest => match dropStart? [recordMark] line with
    | some header =>
      (header, rest.takeWhile fun l => !([recordMark].isPrefixOf l)) :: records rest
    | none => records rest

/-- A record with a header that cannot be read is left out with its changes. -/
def entry? (record : List Char × List (List Char)) : Option Entry := do
  let e ← header? record.1
  return { e with changes := record.2.filterMap change? }

/-- Reads a log. -/
def entries (text : String) : List Entry := (records (lines text.toList)).filterMap entry?

end RepoAudit.History
