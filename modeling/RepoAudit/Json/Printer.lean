import RepoAudit.Decimal.Shortest
import RepoAudit.Json.Value

/-!
# Writing JSON

A value is written on one line without spaces, or over several lines with two spaces a level.
Numbers have the fewest digits that read back.
-/

namespace RepoAudit.Json

/-- How numbers with a fraction are written: in full where the decimal point falls at most
`longestWhole` digits after the first one and at most `leadingZeros` before it. -/
structure FloatStyle where
  longestWhole : Int
  leadingZeros : Int

/-- Numbers from `0.00001` up to `10 ^ 16` are written in full. -/
def floatStyle : FloatStyle := ⟨16, 4⟩

/-- A number between one and ten times a power of ten, whose exponent has a sign. -/
def scientific (ds : List Char) (exponent : Int) : List Char :=
  ds.take 1 ++ (if ds.length ≤ 1 then [] else '.' :: ds.drop 1) ++ 'e' ::
    (if exponent < 0 then '-' else '+') :: Decimal.digits exponent.natAbs

/-- Writes the digits of a positive number with its decimal point `point` places after the first
digit; a whole number ends in `.0`. -/
def floatDigits (ds : List Char) (point : Int) : List Char :=
  if floatStyle.longestWhole < point ∨ point < -floatStyle.leadingZeros then
    scientific ds (point - 1)
  else
    Decimal.positional ds point ++ (if ds.length ≤ point then ['.', '0'] else [])

/-- Numbers that are not finite are written as `null`. -/
def floatText (x : Float) : List Char :=
  match Decimal.Binary.ofFloat? x with
  | some b =>
    let s := Decimal.shortest b
    let ds := Decimal.digits s.digits
    let body := if s.digits = 0 then ['0', '.', '0'] else floatDigits ds (ds.length + s.exponent)
    if b.negative then '-' :: body else body
  | none => "null".toList

def intText (n : Int) : List Char :=
  if n < 0 then '-' :: Decimal.digits n.natAbs else Decimal.digits n.natAbs

/-- A hexadecimal digit in lower case. -/
def hexDigit (n : Nat) : Char := (Nat.digitChar n)

/-- Quotes, backslashes and control characters are escaped, and nothing else. -/
def escapeChar (c : Char) : List Char :=
  if c == '"' then ['\\', '"']
  else if c == '\\' then ['\\', '\\']
  else if c == '\n' then ['\\', 'n']
  else if c == '\r' then ['\\', 'r']
  else if c == '\t' then ['\\', 't']
  else if c == '\x08' then ['\\', 'b']
  else if c == '\x0c' then ['\\', 'f']
  else if c.toNat < 0x20 then
    ['\\', 'u', '0', '0', hexDigit (c.toNat / 16), hexDigit (c.toNat % 16)]
  else [c]

def quoted (s : String) : List Char := '"' :: (s.toList.flatMap escapeChar ++ ['"'])

/-! ### On one line -/

mutual

def compactText : Json → List Char
  | .null => "null".toList
  | .bool true => "true".toList
  | .bool false => "false".toList
  | .int n => intText n
  | .float x => floatText x
  | .string s => quoted s
  | .array items => '[' :: (compactItems items ++ [']'])
  | .object members => '{' :: (compactMembers members ++ ['}'])

def compactItems : List Json → List Char
  | [] => []
  | [v] => compactText v
  | v :: rest => compactText v ++ ',' :: compactItems rest

def compactMembers : List (String × Json) → List Char
  | [] => []
  | [(name, v)] => quoted name ++ ':' :: compactText v
  | (name, v) :: rest => quoted name ++ ':' :: (compactText v ++ ',' :: compactMembers rest)

end

def compact (v : Json) : String := String.ofList (compactText v)

/-! ### Over several lines -/

/-- A line feed and the indentation of a level. -/
def newline (level : Nat) : List Char := '\n' :: List.replicate (2 * level) ' '

mutual

def prettyText (level : Nat) : Json → List Char
  | .array [] => "[]".toList
  | .object [] => ['{', '}']
  | .array items => '[' :: (prettyItems (level + 1) items ++ newline level ++ [']'])
  | .object members => '{' :: (prettyMembers (level + 1) members ++ newline level ++ ['}'])
  | .null => "null".toList
  | .bool true => "true".toList
  | .bool false => "false".toList
  | .int n => intText n
  | .float x => floatText x
  | .string s => quoted s

def prettyItems (level : Nat) : List Json → List Char
  | [] => []
  | [v] => newline level ++ prettyText level v
  | v :: rest => newline level ++ prettyText level v ++ ',' :: prettyItems level rest

def prettyMembers (level : Nat) : List (String × Json) → List Char
  | [] => []
  | [(name, v)] => newline level ++ quoted name ++ ':' :: ' ' :: prettyText level v
  | (name, v) :: rest =>
    newline level ++ quoted name ++ ':' :: ' ' ::
      (prettyText level v ++ ',' :: prettyMembers level rest)

end

def pretty (v : Json) : String := String.ofList (prettyText 0 v)

end RepoAudit.Json
