/-!
# String literals on a line

A literal is enclosed in double or single quotes. A backslash takes the next character in. A quote
that is not closed on its line begins no literal.
-/

namespace RepoAudit.Source

/-- The number of characters up to the closing quote and with it. -/
def closingLength (quote : Char) : List Char → Option Nat
  | [] => none
  | ['\\'] => none
  | '\\' :: _ :: rest => (closingLength quote rest).map (· + 2)
  | c :: rest => if c == quote then some 1 else (closingLength quote rest).map (· + 1)

/-- The length of the literal at the start of a text. -/
def literalLength? : List Char → Option Nat
  | [] => none
  | c :: rest => if c == '"' || c == '\'' then (closingLength c rest).map (· + 1) else none

/-- Puts `image` of its length in place of every literal of a line. The first argument counts
characters that belong to the last literal. -/
def replaceLiterals (image : Nat → List Char) : Nat → List Char → List Char
  | _, [] => []
  | skip + 1, _ :: rest => replaceLiterals image skip rest
  | 0, c :: rest => match literalLength? (c :: rest) with
    | some n => image n ++ replaceLiterals image (n - 1) rest
    | none => c :: replaceLiterals image 0 rest

/-- A line with every literal emptied. -/
def emptyLiterals (line : List Char) : List Char := replaceLiterals (fun _ => ['"', '"']) 0 line

/-- A line with every literal blanked out; all other characters keep their places. -/
def maskLiterals (line : List Char) : List Char := replaceLiterals (List.replicate · ' ') 0 line

end RepoAudit.Source
