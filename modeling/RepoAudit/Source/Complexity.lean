import RepoAudit.Source.Literal
import RepoAudit.Text.Search
import RepoAudit.Text.Split

/-!
# Complexity of source files

The complexity of a file is one more than the number of its decision points, literals and comments
left aside. The maintainability index falls with complexity and with the logarithm of size.
-/

namespace RepoAudit.Source

open Text

/-- What counts as a decision point in a language. -/
structure DecisionRule where
  keywords : List String
  /-- Whether `&&` and `||` count. -/
  operators : Bool
  /-- Whether a question mark counts, unless a character follows that shows another use of it. -/
  ternary : Bool
deriving DecidableEq, Repr

/-- The languages in which decisions are written as in C. -/
def cLikeLanguages : List String :=
  ["javascript", "typescript", "java", "kotlin", "c", "cpp", "csharp", "go", "php", "swift",
   "scala"]

def decisionRule? (language : String) : Option DecisionRule :=
  if language == "python" then
    some ⟨["if", "elif", "for", "while", "except", "case", "and", "or"], false, false⟩
  else if language == "ruby" then
    some ⟨["if", "elsif", "unless", "for", "while", "until", "when", "rescue"], true, false⟩
  else if language == "rust" then some ⟨["if", "for", "while", "loop"], true, false⟩
  else if cLikeLanguages.contains language then
    some ⟨["if", "for", "foreach", "while", "case", "catch", "when"], true, true⟩
  else none

/-- What begins a comment up to the end of the line. -/
def commentMark (language : String) : List Char :=
  if language == "python" || language == "ruby" || language == "shell" then ['#']
  else ['/', '/']

/-- A line without its literals and its comment. -/
def codeOf (language : String) (line : List Char) : List Char :=
  let line := emptyLiterals line
  match cutWord? (commentMark language) line with
  | some (code, _) => code
  | none => line

/-- The code of a text, line by line. -/
def codeOnly (language : String) (content : List Char) : List Char :=
  (lines content).flatMap fun line => codeOf language line ++ ['\n']

/-- Finds a decision point at a place. -/
def decisionAt (rule : DecisionRule) : Step Unit := fun before cs =>
  match wordAt before cs with
  | some (word, rest) =>
    if rule.keywords.contains (String.ofList word) then some ((), rest) else none
  | none => match cs with
    | a :: b :: rest =>
      if rule.operators && a == b && (a == '&' || a == '|') then some ((), rest)
      else if rule.ternary && a == '?' &&
          !(b == '.' || b == '?' || b == ':' || b == ']' || b == ')') then some ((), rest)
      else none
    | _ => none

/-- The number of decision points. -/
def decisionPoints (rule : DecisionRule) (language : String) (content : List Char) : Nat :=
  (finds (decisionAt rule) (codeOnly language content)).length

/-- The complexity of a file, if its language has decision points. -/
def complexity? (language content : String) : Option Float :=
  (decisionRule? language).map fun rule =>
    1.0 + Float.ofNat (decisionPoints rule language content.toList)

def clamp (low high x : Float) : Float := if x < low then low else if x > high then high else x

/-- The maintainability index, between 0 and 100, by complexity and lines of code. -/
def maintainability (complexity : Float) (loc : Nat) : Float :=
  let size := (Float.ofNat (max loc 1)).log
  clamp 0.0 100.0 ((171.0 - 0.23 * complexity - 16.2 * size) * 100.0 / 171.0)

end RepoAudit.Source
