import RepoAudit.Json.Numeral
import RepoAudit.Json.Value
import RepoAudit.Ordered.Map
import RepoAudit.Text.CodePoints

/-!
# JSON documents

A document as it is written: numerals and escapes are read only when they are asked for, so that
a part which nobody looks at may hold what no value could, such as half of a surrogate pair.
-/

namespace RepoAudit.Json

/-- A part of a string: a character, or a UTF-16 unit written as an escape. -/
inductive Piece where
  | char (c : Char)
  | unit (code : Nat)
deriving DecidableEq, Repr

inductive Document where
  | null
  | bool (b : Bool)
  | numeral (n : Numeral)
  | string (pieces : List Piece)
  | array (items : List Document)
  | object (members : List (List Piece × Document))
deriving Inhabited

/-! ### Strings -/

def isHighSurrogate (n : Nat) : Bool := 0xD800 ≤ n && n < 0xDC00

def isLowSurrogate (n : Nat) : Bool := 0xDC00 ≤ n && n < 0xE000

/-- The characters of a string; a high surrogate must be followed by a low one, and a low one must
follow. -/
def characters? : List Piece → Option (List Char)
  | [] => some []
  | .char c :: rest => (characters? rest).map (c :: ·)
  | .unit high :: .unit low :: rest =>
    if isHighSurrogate high then
      if isLowSurrogate low then
        (characters? rest).map
          (Char.ofNat (0x10000 + (high - 0xD800) * 0x400 + (low - 0xDC00)) :: ·)
      else none
    else if isLowSurrogate high then none
    else (characters? (.unit low :: rest)).map (Char.ofNat high :: ·)
  | .unit n :: rest =>
    if isHighSurrogate n || isLowSurrogate n then none
    else (characters? rest).map (Char.ofNat n :: ·)

/-- The number written by the next four hexadecimal digits. -/
def hexUnit? : List Char → Option (Nat × List Char)
  | a :: b :: c :: d :: rest => do
    let a ← Text.hexDigit? a
    let b ← Text.hexDigit? b
    let c ← Text.hexDigit? c
    let d ← Text.hexDigit? d
    some (((a * 16 + b) * 16 + c) * 16 + d, rest)
  | _ => none

/-- The character that a short escape stands for. -/
def shortEscape? (c : Char) : Option Char :=
  if c == '"' || c == '\\' || c == '/' then some c
  else if c == 'b' then some '\x08'
  else if c == 'f' then some '\x0c'
  else if c == 'n' then some '\n'
  else if c == 'r' then some '\r'
  else if c == 't' then some '\t'
  else none

/-- Reads a string behind its opening quote. -/
def pieces? : List Char → Option (List Piece × List Char)
  | [] => none
  | '"' :: rest => some ([], rest)
  | '\\' :: 'u' :: a :: b :: c :: d :: rest => do
    let (n, _) ← hexUnit? [a, b, c, d]
    let (ps, rest) ← pieces? rest
    some (.unit n :: ps, rest)
  | '\\' :: c :: rest => do
    let c ← shortEscape? c
    let (ps, rest) ← pieces? rest
    some (.char c :: ps, rest)
  | c :: rest =>
    if c.toNat < 0x20 || c == '\\' then none
    else (pieces? rest).map fun (ps, rest) => (.char c :: ps, rest)

/-! ### Numerals -/

/-- Reads the digits of a fraction or an exponent, of which there is at least one. -/
def digits? (cs : List Char) : Option (List Char × List Char) :=
  let ds := cs.takeWhile Char.isDigit
  if ds.isEmpty then none else some (ds, cs.dropWhile Char.isDigit)

/-- Reads a whole number, which does not begin with a superfluous zero. -/
def whole? (cs : List Char) : Option (List Char × List Char) := do
  let (ds, rest) ← digits? cs
  if ds.head? = some '0' ∧ ds.length ≠ 1 then none else some (ds, rest)

/-- Reads the sign of a number, true for minus. -/
def sign : List Char → Bool × List Char
  | '-' :: rest => (true, rest)
  | cs => (false, cs)

/-- Reads a fraction if there is one. -/
def fraction? : List Char → Option (Option (List Char) × List Char)
  | '.' :: rest => (digits? rest).map fun (ds, rest) => (some ds, rest)
  | cs => some (none, cs)

/-- Reads an exponent if there is one; its sign may be a plus. -/
def exponent? : List Char → Option (Option (Bool × List Char) × List Char)
  | [] => some (none, [])
  | c :: rest =>
    if c == 'e' || c == 'E' then
      let (minus, rest) := match rest with
        | '+' :: rest => (false, rest)
        | _ => sign rest
      (digits? rest).map fun (ds, rest) => (some (minus, ds), rest)
    else some (none, c :: rest)

def numeral? (cs : List Char) : Option (Numeral × List Char) := do
  let (negative, cs) := sign cs
  let (whole, cs) ← whole? cs
  let (fraction, cs) ← fraction? cs
  let (exponent, cs) ← exponent? cs
  some (⟨negative, whole, fraction, exponent⟩, cs)

/-! ### Documents -/

def isSpace (c : Char) : Bool := c == ' ' || c == '\n' || c == '\t' || c == '\r'

def skipSpace (cs : List Char) : List Char := cs.dropWhile isSpace

/-- Reads a key and the colon behind it. -/
def key? (cs : List Char) : Option (List Piece × List Char) :=
  match cs with
  | '"' :: rest => do
    let (ps, rest) ← pieces? rest
    match skipSpace rest with
    | ':' :: rest => some (ps, rest)
    | _ => none
  | _ => none

mutual

/-- Reads a value; `fuel` bounds the nesting of calls. -/
def value? : Nat → List Char → Option (Document × List Char)
  | 0, _ => none
  | fuel + 1, cs => match skipSpace cs with
    | 'n' :: 'u' :: 'l' :: 'l' :: rest => some (.null, rest)
    | 't' :: 'r' :: 'u' :: 'e' :: rest => some (.bool true, rest)
    | 'f' :: 'a' :: 'l' :: 's' :: 'e' :: rest => some (.bool false, rest)
    | '"' :: rest => (pieces? rest).map fun (ps, rest) => (.string ps, rest)
    | '[' :: rest => match skipSpace rest with
      | ']' :: rest => some (.array [], rest)
      | rest => (items? fuel rest).map fun (vs, rest) => (.array vs, rest)
    | '{' :: rest => match skipSpace rest with
      | '}' :: rest => some (.object [], rest)
      | rest => (members? fuel rest).map fun (ms, rest) => (.object ms, rest)
    | cs => (numeral? cs).map fun (n, rest) => (.numeral n, rest)

def items? : Nat → List Char → Option (List Document × List Char)
  | 0, _ => none
  | fuel + 1, cs => do
    let (v, rest) ← value? fuel cs
    match skipSpace rest with
    | ',' :: rest => (items? fuel rest).map fun (vs, rest) => (v :: vs, rest)
    | ']' :: rest => some ([v], rest)
    | _ => none

def members? : Nat → List Char → Option (List (List Piece × Document) × List Char)
  | 0, _ => none
  | fuel + 1, cs => do
    let (name, rest) ← key? (skipSpace cs)
    let (v, rest) ← value? fuel rest
    match skipSpace rest with
    | ',' :: rest => (members? fuel rest).map fun (ms, rest) => ((name, v) :: ms, rest)
    | '}' :: rest => some ([(name, v)], rest)
    | _ => none

end

/-- Reads a whole text. Every second call consumes a character, so the fuel never runs out. -/
def Document.ofText? (cs : List Char) : Option Document := do
  let (d, rest) ← value? (2 * cs.length + 2) cs
  if (skipSpace rest).isEmpty then some d else none

namespace Document

/-! ### Values -/

/-- The number that a numeral writes, whole if it can be. -/
def number? (n : Numeral) : Option Json :=
  match n.int? with
  | some i => some (.int i)
  | none => n.float?.map .float

/-- Keeps the last of several members with one name, in the order of the names. -/
def sortMembers (members : List (String × Json)) : List (String × Json) :=
  (SortedMap.ofList members).entries

mutual

/-- The value of a document whose arrays and objects are nested at most `depth` deep. -/
def toJson? (depth : Nat) : Document → Option Json
  | .null => some .null
  | .bool b => some (.bool b)
  | .numeral n => number? n
  | .string ps => (characters? ps).map fun cs => .string (String.ofList cs)
  | .array items => match depth with
    | 0 => none
    | depth + 1 => (itemsToJson? depth items).map .array
  | .object members => match depth with
    | 0 => none
    | depth + 1 => (membersToJson? depth members).map fun ms => .object (sortMembers ms)

def itemsToJson? (depth : Nat) : List Document → Option (List Json)
  | [] => some []
  | d :: rest => do
    let v ← toJson? depth d
    let vs ← itemsToJson? depth rest
    some (v :: vs)

def membersToJson? (depth : Nat) :
    List (List Piece × Document) → Option (List (String × Json))
  | [] => some []
  | (name, d) :: rest => do
    let name ← characters? name
    let v ← toJson? depth d
    let vs ← membersToJson? depth rest
    some ((String.ofList name, v) :: vs)

end

/-! ### Typed parts -/

def string? : Document → Option String
  | .string ps => (characters? ps).map String.ofList
  | _ => none

def bool? : Document → Option Bool
  | .bool b => some b
  | _ => none

def nat? : Document → Option Nat
  | .numeral n => n.nat?
  | _ => none

def float? : Document → Option Float
  | .numeral n => n.float?
  | _ => none

/-- `null` stands for no value. -/
def optional? {α : Type} (read : Document → Option α) : Document → Option (Option α)
  | .null => some none
  | d => (read d).map some

def list? {α : Type} (read : Document → Option α) : Document → Option (List α)
  | .array items => items.mapM read
  | _ => none

/-- An object with arbitrary names; the last of several members with one name stays. -/
def map? {α : Type} (read : Document → Option α) : Document → Option (SortedMap String α)
  | .object members => do
    let entries ← members.mapM fun (name, d) => do
      let name ← characters? name
      let v ← read d
      some (String.ofList name, v)
    some (SortedMap.ofList entries)
  | _ => none

/-- One of several named choices, which may also be written as an object whose only member has
the name and no value. -/
def choice? : Document → Option String
  | .string ps => (characters? ps).map String.ofList
  | .object [(name, .null)] => (characters? name).map String.ofList
  | _ => none

/-- The fields of a record. -/
abbrev Fields := List (String × Document)

/-- Adds a member to the fields that are found. Members without one of these names are passed over,
and no field may be repeated. -/
def addField? (names : List String) (found : Fields) (member : List Piece × Document) :
    Option Fields := do
  let name ← (characters? member.1).map String.ofList
  if !names.contains name then some found
  else if (found.lookup name).isSome then none
  else some (found ++ [(name, member.2)])

/-- Reads a record with these field names: an object, or an array of the fields in their order. -/
def fields? (names : List String) : Document → Option Fields
  | .object members => members.foldlM (addField? names) []
  | .array items => if items.length ≤ names.length then some (names.zip items) else none
  | _ => none

namespace Fields

/-- A field that must be there. -/
def required {α : Type} (fs : Fields) (name : String) (read : Document → Option α) : Option α := do
  read (← fs.lookup name)

/-- A field that may be absent. -/
def orElse {α : Type} (fs : Fields) (name : String) (read : Document → Option α) (absent : α) :
    Option α :=
  match fs.lookup name with
  | some d => read d
  | none => some absent

end Fields
end Document
end RepoAudit.Json
