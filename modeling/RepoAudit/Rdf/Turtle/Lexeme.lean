import RepoAudit.Decimal.Reader
import RepoAudit.Rdf.Turtle.Cursor
import RepoAudit.Text.Blank
import RepoAudit.Text.CodePoints

/-!
# The lexemes of Turtle

Each scan looks at the text ahead and answers what it found and how many characters that takes.
A failed scan also takes characters, up to the place of the error.
-/

namespace RepoAudit.Rdf.Turtle

/-- What a scan found, and how many characters it took. -/
structure Scan (α : Type) where
  result : Except SyntaxError α
  taken : Nat

namespace Scan

def found {α : Type} (a : α) (taken : Nat) : Scan α := ⟨.ok a, taken⟩

def failed {α : Type} (e : SyntaxError) (taken : Nat) : Scan α := ⟨.error e, taken⟩

/-- Puts `n` characters and `f` of the result in front. -/
def prepend {α : Type} (n : Nat) (f : α → α) (s : Scan α) : Scan α :=
  ⟨s.result.map f, n + s.taken⟩

end Scan

/-- The characters of names. -/
def isNameChar (c : Char) : Bool :=
  Text.isAlphanumeric c || c == '_' || c == '-' || c == '.' || c == '\u00b7'

/-- The length of blanks and comments; a comment begins with `#` and ends before a line feed. -/
def spaceLength (inComment : Bool) : List Char → Nat
  | [] => 0
  | c :: rest =>
    if inComment && c != '\n' then spaceLength true rest + 1
    else if Text.isBlank c then spaceLength false rest + 1
    else if c == '#' then spaceLength true rest + 1
    else 0

/-- Whether a text begins with a keyword, in any case, that no name continues. -/
def startsWithKeyword (keyword cs : List Char) : Bool :=
  let ahead := cs.take keyword.length
  ahead.map Char.toLower == keyword &&
    match (cs.drop keyword.length).head? with
    | some c => !(isNameChar c || c == ':')
    | none => true

/-! ### Escapes -/

/-- Reads `n` hexadecimal digits, of which those in front write `value`. -/
def scanHex (value : Nat) : Nat → List Char → Scan Nat
  | 0, _ => .found value 0
  | _ + 1, [] => .failed .unicodeEscape 0
  | n + 1, c :: rest => match Text.hexDigit? c with
    | some d => (scanHex (16 * value + d) n rest).prepend 1 id
    | none => .failed .unicodeEscape 1

/-- Reads a character written by `n` hexadecimal digits. -/
def scanHexChar (n : Nat) (cs : List Char) : Scan Char :=
  let s := scanHex 0 n cs
  match s.result with
  | .ok v => if h : v.isValidChar then .found (Char.ofNatAux v h) s.taken else .failed .codePoint s.taken
  | .error e => .failed e s.taken

/-- Reads what follows a backslash in an IRI. -/
def scanIriEscape : List Char → Scan Char
  | 'u' :: rest => (scanHexChar 4 rest).prepend 1 id
  | 'U' :: rest => (scanHexChar 8 rest).prepend 1 id
  | [] => .failed .escapeInIri 0
  | _ :: _ => .failed .escapeInIri 1

/-- The character that a short escape in a string stands for. -/
def stringEscape? (c : Char) : Option Char :=
  if c == 't' then some '\t'
  else if c == 'n' then some '\n'
  else if c == 'r' then some '\r'
  else if c == 'b' then some '\x08'
  else if c == 'f' then some '\x0c'
  else if c == '"' || c == '\'' || c == '\\' then some c
  else none

/-- Reads what follows a backslash in a string. -/
def scanStringEscape : List Char → Scan Char
  | 'u' :: rest => (scanHexChar 4 rest).prepend 1 id
  | 'U' :: rest => (scanHexChar 8 rest).prepend 1 id
  | [] => .failed .unterminatedString 0
  | c :: _ => match stringEscape? c with
    | some d => .found d 1
    | none => .failed (.escapeInString c) 1

/-! ### IRIs, strings and names -/

/-- Reads an IRI behind its opening bracket. -/
def scanIri (cs : List Char) : Scan (List Char) :=
  match cs with
  | [] => .failed .unterminatedIri 0
  | c :: rest =>
    if c == '>' then .found [] 1
    else if c == '\\' then
      let e := scanIriEscape rest
      match e.result with
      | .ok d => (scanIri (rest.drop e.taken)).prepend (1 + e.taken) (d :: ·)
      | .error err => .failed err (1 + e.taken)
    else if c == '\n' || c == ' ' then .failed .whitespaceInIri 1
    else (scanIri rest).prepend 1 (c :: ·)
termination_by cs.length
decreasing_by all_goals simp only [List.length_drop, List.length_cons]; omega

/-- Reads a string behind its opening quotes, of which a long string has three. -/
def scanString (quote : Char) (long : Bool) (cs : List Char) : Scan (List Char) :=
  match cs with
  | [] => .failed .unterminatedString 0
  | c :: rest =>
    if c == '\n' && !long then .failed .newlineInString 0
    else if c == quote then
      if !long then .found [] 1
      else if [quote, quote].isPrefixOf rest then .found [] 3
      else (scanString quote long rest).prepend 1 (c :: ·)
    else if c == '\\' then
      let e := scanStringEscape rest
      match e.result with
      | .ok d => (scanString quote long (rest.drop e.taken)).prepend (1 + e.taken) (d :: ·)
      | .error err => .failed err (1 + e.taken)
    else (scanString quote long rest).prepend 1 (c :: ·)
termination_by cs.length
decreasing_by all_goals simp only [List.length_drop, List.length_cons]; omega

/-- Reads a string with its quotes. -/
def scanQuoted : List Char → Scan (List Char)
  | [] => .failed .unterminatedString 0
  | quote :: rest =>
    if [quote, quote].isPrefixOf rest then (scanString quote true (rest.drop 2)).prepend 3 id
    else (scanString quote false rest).prepend 1 id

/-- Reads the part of a name behind the colon, where a backslash takes any character in. -/
def scanLocal : List Char → Scan (List Char)
  | [] => .found [] 0
  | '\\' :: c :: rest => (scanLocal rest).prepend 2 (c :: ·)
  | ['\\'] => .failed .danglingEscape 1
  | c :: rest =>
    if isNameChar c || c == ':' || c == '%' then (scanLocal rest).prepend 1 (c :: ·)
    else .found [] 0

/-- The number of dots at the end of a name, which are not part of it. -/
def trailingDots (name : List Char) : Nat := (name.reverse.takeWhile (· == '.')).length

/-- Reads a language tag. -/
def scanLang (cs : List Char) : Scan (List Char) :=
  let tag := cs.takeWhile fun c => c.isAlphanum || c == '-'
  if tag.isEmpty then .failed .emptyLanguageTag 0 else .found tag tag.length

/-! ### Numbers -/

/-- A sign and what follows it. -/
def splitSign : List Char → List Char × List Char
  | '+' :: rest => (['+'], rest)
  | '-' :: rest => (['-'], rest)
  | cs => ([], cs)

/-- A point with the digits behind it, of which there is at least one. -/
def splitFraction : List Char → List Char × List Char
  | '.' :: rest =>
    let ds := rest.takeWhile Char.isDigit
    if ds.isEmpty then ([], '.' :: rest) else ('.' :: ds, rest.dropWhile Char.isDigit)
  | cs => ([], cs)

/-- Reads a number: its text and the name of its datatype. -/
def scanNumber (cs : List Char) : Scan (List Char × String) :=
  let (sign, cs) := splitSign cs
  let whole := cs.takeWhile Char.isDigit
  let (fraction, cs) := splitFraction (cs.dropWhile Char.isDigit)
  let mantissa := sign ++ whole ++ fraction
  if whole.isEmpty && fraction.isEmpty then .failed .invalidNumber mantissa.length
  else match cs with
    | c :: cs =>
      if c == 'e' || c == 'E' then
        let (sign, cs) := splitSign cs
        let ds := cs.takeWhile Char.isDigit
        let text := mantissa ++ 'e' :: (sign ++ ds)
        if ds.isEmpty then .failed .invalidExponent text.length
        else .found (text, "double") text.length
      else .found (mantissa, if fraction.isEmpty then "integer" else "decimal") mantissa.length
    | [] => .found (mantissa, if fraction.isEmpty then "integer" else "decimal") mantissa.length

end RepoAudit.Rdf.Turtle
