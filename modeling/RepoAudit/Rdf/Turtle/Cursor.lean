import RepoAudit.Text.Letter

/-!
# Places in a text

A cursor splits a text into what has been read and what has not, and knows its line and column.
-/

namespace RepoAudit.Rdf.Turtle

/-- A place in a text; what has been read is kept with the last character first. -/
structure Cursor where
  before : List Char := []
  rest : List Char
  line : Nat := 1
  column : Nat := 1
deriving DecidableEq, Repr

namespace Cursor

/-- Reads one character, unless the text has ended. -/
def next (c : Cursor) : Cursor :=
  match c.rest with
  | [] => c
  | x :: rest =>
    if x == '\n' then ⟨x :: c.before, rest, c.line + 1, 1⟩
    else ⟨x :: c.before, rest, c.line, c.column + 1⟩

def advance (c : Cursor) : Nat → Cursor
  | 0 => c
  | n + 1 => c.next.advance n

theorem rest_next (c : Cursor) : c.next.rest = c.rest.tail := by
  unfold next
  split
  · rename_i ended
    rw [ended, List.tail_nil]
  · rename_i x rest found
    rw [found]
    split <;> rfl

theorem rest_advance (c : Cursor) : ∀ n, (c.advance n).rest = c.rest.drop n
  | 0 => rfl
  | n + 1 => by rw [advance, rest_advance, rest_next, List.drop_tail]

/-- Gives characters back; they must be on the line of the cursor. -/
def back (c : Cursor) : Nat → Cursor
  | 0 => c
  | n + 1 => match c.before with
    | [] => c
    | x :: before => Cursor.back ⟨before, x :: c.rest, c.line, c.column - 1⟩ n

/-- The text that the cursor is in. -/
def text (c : Cursor) : List Char := c.before.reverse ++ c.rest

end Cursor

/-! ### Why a text is not accepted -/

inductive SyntaxError where
  | expected (wanted : Char) (found : Option Char)
  | endOfInput (wanted : String)
  | charInPrefix (c : Char)
  | unexpected (c : Char)
  | noColon (name : String)
  | danglingEscape
  | undefinedPrefix (name : String)
  | whitespaceInIri
  | unterminatedIri
  | escapeInIri
  | unicodeEscape
  | codePoint
  | unterminatedCollection
  | emptyLanguageTag
  | unterminatedString
  | newlineInString
  | escapeInString (c : Char)
  | invalidNumber
  | invalidExponent
  /-- The text is nested deeper than it is long, which does not happen. -/
  | tooDeep
deriving DecidableEq, Repr

/-- The wording of an error. -/
def SyntaxError.message : SyntaxError → String
  | .expected wanted (some found) => s!"expected '{wanted}', found '{found}'"
  | .expected wanted none => s!"expected '{wanted}', found end of input"
  | .endOfInput wanted => s!"expected {wanted}, found end of input"
  | .charInPrefix c => s!"invalid character '{c}' in prefix"
  | .unexpected c => s!"unexpected character '{c}'"
  | .noColon name => s!"expected prefixed name, found '{name}'"
  | .danglingEscape => "dangling escape in local name"
  | .undefinedPrefix name => s!"undefined prefix '{name}:'"
  | .whitespaceInIri => "whitespace in IRI"
  | .unterminatedIri => "unterminated IRI"
  | .escapeInIri => "invalid escape in IRI"
  | .unicodeEscape => "invalid unicode escape"
  | .codePoint => "invalid unicode code point"
  | .unterminatedCollection => "unterminated collection"
  | .emptyLanguageTag => "empty language tag"
  | .unterminatedString => "unterminated string"
  | .newlineInString => "newline in short string"
  | .escapeInString c => s!"invalid escape '\\{c}'"
  | .invalidNumber => "invalid number"
  | .invalidExponent => "invalid exponent"
  | .tooDeep => "nesting too deep"

/-- An error at a place in a named document. -/
structure Failure where
  source : String
  line : Nat
  column : Nat
  cause : SyntaxError
deriving DecidableEq, Repr

def Failure.message (f : Failure) : String :=
  s!"Turtle parse error in {f.source} at line {f.line}, column {f.column}: {f.cause.message}"

end RepoAudit.Rdf.Turtle
