import RepoAudit.Text.Letter

/-!
# Searching a text

A step looks at a place in a text, given the character before it and all that is ahead, and either
finds something there, with what is left behind it, or nothing.
-/

namespace RepoAudit.Text

/-- Looks at a place: the character before it and the text ahead. -/
abbrev Step (α : Type) := Option Char → List Char → Option (α × List Char)

/-- What a step finds from left to right; the search goes on behind each find. The first argument
counts characters that belong to the last find. -/
def findAll {α : Type} (step : Step α) : Nat → Option Char → List Char → List α
  | _, _, [] => []
  | skip + 1, _, c :: cs => findAll step skip (some c) cs
  | 0, before, c :: cs => match step before (c :: cs) with
    | some (a, rest) => a :: findAll step (cs.length - rest.length) (some c) cs
    | none => findAll step 0 (some c) cs

/-- Everything that a step finds in a text. -/
def finds {α : Type} (step : Step α) (cs : List Char) : List α := findAll step 0 none cs

/-- Whether there is no word character at a side of a place. -/
def noWord (c : Option Char) : Bool := !c.any isWord

/-- Whether a line begins behind a character. -/
def beginsLine (before : Option Char) : Bool := before = none || before = some '\n'

/-- The word at a place where one begins, and what follows it. -/
def wordAt : Step (List Char) := fun before cs =>
  let word := cs.takeWhile isWord
  if noWord before && !word.isEmpty then some (word, cs.dropWhile isWord) else none

end RepoAudit.Text
