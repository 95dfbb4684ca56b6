import RepoAudit.Decimal.Reader
import RepoAudit.Text.CodePoints
import RepoAudit.Time.Instant
import RepoAudit.Toml.Value

/-!
# Scalars of configuration files

Strings in four kinds of quotes, numbers and dates. Each reader gives the value and what follows
it.
-/

namespace RepoAudit.Toml

open Text

/-! ### Strings -/

/-- Whether a character may stand in a comment or, but for quotes, in a string. -/
def isPrintable (c : Char) : Bool := c == '\t' || (' ' ≤ c && c != '\x7f')

def isSpace (c : Char) : Bool := c == ' ' || c == '\t'

/-- Removes a line feed, before which there may be a carriage return. -/
def newline? : List Char → Option (List Char)
  | '\n' :: rest => some rest
  | '\r' :: '\n' :: rest => some rest
  | _ => none

/-- The character with a number, unless that is a surrogate or too great. -/
def scalar? (n : Nat) : Option Char := if n.isValidChar then some (Char.ofNat n) else none

/-- A character by `count` hexadecimal digits. -/
def hexChar? (count : Nat) (cs : List Char) : Option (Char × List Char) := do
  let ds := cs.take count
  if ds.length = count && ds.all (hexDigit? · |>.isSome) then
    return (← scalar? (hexNumber ds), cs.drop count)
  else none

/-- What follows a backslash. -/
def escape? : List Char → Option (Char × List Char)
  | 'b' :: rest => some ('\x08', rest)
  | 'f' :: rest => some ('\x0c', rest)
  | 'n' :: rest => some ('\n', rest)
  | 'r' :: rest => some ('\r', rest)
  | 't' :: rest => some ('\t', rest)
  | '"' :: rest => some ('"', rest)
  | '\\' :: rest => some ('\\', rest)
  | 'u' :: rest => hexChar? 4 rest
  | 'U' :: rest => hexChar? 8 rest
  | _ => none

/-- The rest of a string in double quotes. -/
def basic? : Nat → List Char → Option (List Char × List Char)
  | 0, _ => none
  | _, [] => none
  | fuel + 1, c :: rest =>
    if c == '"' then some ([], rest)
    else if c == '\\' then do
      let (d, rest) ← escape? rest
      let (ds, rest) ← basic? fuel rest
      return (d :: ds, rest)
    else if isPrintable c then do
      let (ds, rest) ← basic? fuel rest
      return (c :: ds, rest)
    else none

/-- The rest of a string in single quotes. -/
def literal? : List Char → Option (List Char × List Char)
  | [] => none
  | c :: rest =>
    if c == '\'' then some ([], rest)
    else if isPrintable c then (literal? rest).map fun (ds, rest) => (c :: ds, rest)
    else none

/-- Ends a string over several lines: of the quotes that follow, up to two belong to the string. -/
def closing? (quote : Char) (cs : List Char) : Option (List Char × List Char) :=
  let quotes := (cs.takeWhile (· == quote)).length
  if quotes < 3 then none
  else
    let inner := min (quotes - 3) 2
    some (List.replicate inner quote, cs.drop (inner + 3))

/-- Skips blanks and line ends. -/
def skipGaps : List Char → List Char
  | '\r' :: '\n' :: rest => skipGaps rest
  | c :: rest => if isSpace c || c == '\n' then skipGaps rest else c :: rest
  | [] => []

/-- Skips blanks and line ends after a backslash at the end of a line. -/
def continued? (cs : List Char) : Option (List Char) :=
  (newline? (cs.dropWhile isSpace)).map skipGaps

/-- The rest of a string over several lines; with `escapes`, backslashes have a meaning. -/
def multiline? (quote : Char) (escapes : Bool) : Nat → List Char → Option (List Char × List Char)
  | 0, _ => none
  | _, [] => none
  | fuel + 1, c :: rest =>
    if c == quote then
      match closing? quote (c :: rest) with
      | some done => some done
      | none => (multiline? quote escapes fuel rest).map fun (ds, rest) => (c :: ds, rest)
    else if escapes && c == '\\' then
      match continued? rest with
      | some rest => multiline? quote escapes fuel rest
      | none => do
        let (d, rest) ← escape? rest
        let (ds, rest) ← multiline? quote escapes fuel rest
        return (d :: ds, rest)
    else match newline? (c :: rest) with
      | some rest => (multiline? quote escapes fuel rest).map fun (ds, rest) => ('\n' :: ds, rest)
      | none =>
        if isPrintable c then
          (multiline? quote escapes fuel rest).map fun (ds, rest) => (c :: ds, rest)
        else none

/-- What follows the opening quotes of a string over several lines; a line end right behind them
does not count. -/
def opened (cs : List Char) : List Char := (newline? cs).getD cs

def string? (cs : List Char) : Option (String × List Char) := do
  let (ds, rest) ← match cs with
    | '"' :: '"' :: '"' :: rest => multiline? '"' true (rest.length + 1) (opened rest)
    | '\'' :: '\'' :: '\'' :: rest => multiline? '\'' false (rest.length + 1) (opened rest)
    | '"' :: rest => basic? (rest.length + 1) rest
    | '\'' :: rest => literal? rest
    | _ => none
  return (String.ofList ds, rest)

/-! ### Dates -/

/-- A number of `count` digits. -/
def fixedNumber? (count : Nat) (cs : List Char) : Option (Nat × List Char) :=
  let ds := cs.take count
  if ds.length = count && ds.all Char.isDigit then
    some (Decimal.natOfDigits ds, cs.drop count)
  else none

def char? (c : Char) : List Char → Option (List Char)
  | d :: rest => if d == c then some rest else none
  | [] => none

/-- What follows a time. A minute may have 61 seconds. -/
def afterTime? (cs : List Char) : Option (List Char) := do
  let (hour, cs) ← fixedNumber? 2 cs
  let (minute, cs) ← fixedNumber? 2 (← char? ':' cs)
  let (second, cs) ← fixedNumber? 2 (← char? ':' cs)
  if 23 < hour || 59 < minute || 60 < second then none
  match cs with
  | '.' :: c :: rest => if c.isDigit then some (rest.dropWhile Char.isDigit) else none
  | _ => some cs

/-- What follows an offset, if there is one. -/
def afterOffset? (cs : List Char) : Option (List Char) :=
  match cs with
  | [] => some []
  | c :: rest =>
    if c == 'Z' || c == 'z' then some rest
    else if c == '+' || c == '-' then do
      let (hour, rest) ← fixedNumber? 2 rest
      let (minute, rest) ← fixedNumber? 2 (← char? ':' rest)
      if 23 < hour || 59 < minute then none else some rest
    else some cs

/-- What follows a date, and the time and offset behind it. -/
def afterDate? (cs : List Char) : Option (List Char) := do
  let (year, cs) ← fixedNumber? 4 cs
  let (month, cs) ← fixedNumber? 2 (← char? '-' cs)
  let (day, cs) ← fixedNumber? 2 (← char? '-' cs)
  let _ ← Time.Date.make? year month day
  match cs with
  | c :: rest =>
    if c == 'T' || c == 't' || c == ' ' then
      match afterTime? rest with
      | some rest => afterOffset? rest
      | none => some cs
    else some cs
  | [] => some []

/-! ### Numbers -/

/-- Digits between which there may be single underscores, without these. -/
def moreDigits (p : Char → Bool) : List Char → List Char × List Char
  | '_' :: c :: rest =>
    if p c then
      let (ds, after) := moreDigits p rest
      (c :: ds, after)
    else ([], '_' :: c :: rest)
  | c :: rest =>
    if p c then
      let (ds, after) := moreDigits p rest
      (c :: ds, after)
    else ([], c :: rest)
  | [] => ([], [])

def digits? (p : Char → Bool) : List Char → Option (List Char × List Char)
  | c :: rest =>
    if p c then
      let (ds, after) := moreDigits p rest
      some (c :: ds, after)
    else none
  | [] => none

/-- A number in a base that is a power of two. -/
def based? (base : Nat) (cs : List Char) : Option (Toml × List Char) := do
  let value (c : Char) : Nat := (hexDigit? c).getD 16
  let (ds, rest) ← digits? (value · < base) cs
  let n := ds.foldl (fun n d => base * n + value d) 0
  if n < Nat.pow 2 63 then some (.int n, rest) else none

/-- The digits of a whole number; a leading zero stands alone. -/
def wholeDigits? : List Char → Option (List Char × List Char)
  | '0' :: rest => some (['0'], rest)
  | cs => digits? Char.isDigit cs

def sign? : List Char → Bool × List Char
  | '-' :: rest => (true, rest)
  | '+' :: rest => (false, rest)
  | cs => (false, cs)

def exponent? : List Char → Option (List Char × List Char)
  | c :: rest =>
    if c == 'e' || c == 'E' then do
      let (negative, rest) := sign? rest
      let (ds, rest) ← digits? Char.isDigit rest
      return ((if negative then ['e', '-'] else ['e']) ++ ds, rest)
    else some ([], c :: rest)
  | [] => some ([], [])

/-- A number with a sign. A positive one must not be infinite unless it is written as that. -/
def decimal? (negative : Bool) (cs : List Char) : Option (Toml × List Char) := do
  let (whole, rest) ← wholeDigits? cs
  let (fraction, rest) ← match rest with
    | '.' :: rest => (digits? Char.isDigit rest).map fun (ds, rest) => ('.' :: ds, rest)
    | _ => some ([], rest)
  let (exponent, rest) ← exponent? rest
  if fraction.isEmpty && exponent.isEmpty then
    let n : Int := Decimal.natOfDigits whole
    let n := if negative then -n else n
    if -(Nat.pow 2 63 : Int) ≤ n && n < Nat.pow 2 63 then some (.int n, rest) else none
  else
    let x ← Decimal.float? (whole ++ fraction ++ exponent)
    if negative then some (.float (-x), rest)
    else if x == Decimal.infinity then none
    else some (.float x, rest)

def number? (cs : List Char) : Option (Toml × List Char) :=
  match cs with
  | '0' :: 'x' :: rest => based? 16 rest
  | '0' :: 'o' :: rest => based? 8 rest
  | '0' :: 'b' :: rest => based? 2 rest
  | _ =>
    let (negative, rest) := sign? cs
    let signed (x : Float) : Toml := .float (if negative then -x else x)
    match rest with
    | 'i' :: 'n' :: 'f' :: rest => some (signed Decimal.infinity, rest)
    | 'n' :: 'a' :: 'n' :: rest => some (signed Decimal.undefinedNumber, rest)
    | _ => decimal? negative rest

/-- A value that is no array and no table. -/
def scalar (cs : List Char) : Option (Toml × List Char) :=
  match cs with
  | 't' :: 'r' :: 'u' :: 'e' :: rest => some (.bool true, rest)
  | 'f' :: 'a' :: 'l' :: 's' :: 'e' :: rest => some (.bool false, rest)
  | '"' :: _ | '\'' :: _ => (string? cs).map fun (s, rest) => (.string s, rest)
  | _ => match afterDate? cs <|> afterTime? cs with
    | some rest => some (.date, rest)
    | none => number? cs

end RepoAudit.Toml
