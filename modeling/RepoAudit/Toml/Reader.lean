import RepoAudit.Toml.Scalar

/-!
# Reading configuration files

A file is a list of lines with keys and values, in sections that headers begin.
-/

namespace RepoAudit.Toml

def skipSpace (cs : List Char) : List Char := cs.dropWhile isSpace

/-! ### Keys -/

def isBare (c : Char) : Bool := c.isAlphanum || c == '_' || c == '-'

def simpleKey? (cs : List Char) : Option (String × List Char) :=
  match cs with
  | '"' :: rest => (basic? (rest.length + 1) rest).map fun (ds, rest) => (String.ofList ds, rest)
  | '\'' :: rest => (literal? rest).map fun (ds, rest) => (String.ofList ds, rest)
  | _ =>
    let ds := cs.takeWhile isBare
    if ds.isEmpty then none else some (String.ofList ds, cs.dropWhile isBare)

/-- How many parts a dotted key, and how many levels a value, may have. -/
def depthLimit : Nat := 79

/-- A key of at most `n` parts with dots between them; blanks around it do not count. -/
def key? : Nat → List Char → Option (List String × List Char)
  | 0, _ => none
  | n + 1, cs => do
    let (k, rest) ← simpleKey? (skipSpace cs)
    match skipSpace rest with
    | '.' :: rest =>
      let (ks, rest) ← key? n rest
      return (k :: ks, rest)
    | rest => return ([k], rest)

/-! ### Values -/

/-- Drops a comment up to the end of the line. -/
def skipComment : List Char → List Char
  | '#' :: rest => rest.dropWhile isPrintable
  | cs => cs

/-- Skips blanks, line ends and comments. -/
def skipLines : Nat → List Char → List Char
  | 0, cs => cs
  | fuel + 1, cs => match skipSpace cs with
    | '#' :: rest => skipLines fuel (skipComment ('#' :: rest))
    | rest => match newline? rest with
      | some rest => skipLines fuel rest
      | none => rest

def skipAll (cs : List Char) : List Char := skipLines cs.length cs

mutual

/-- A value; the first number bounds the reader's steps, the second the depth of the value. -/
def value? : Nat → Nat → List Char → Option (Toml × List Char)
  | 0, _, _ => none
  | fuel + 1, depth, '[' :: rest => match depth with
    | 0 => none
    | depth + 1 => (items? fuel depth rest).map fun (vs, rest) => (.array vs, rest)
  | fuel + 1, depth, '{' :: rest => match depth with
    | 0 => none
    | depth + 1 => do
      let (pairs, rest) ← match skipSpace rest with
        | '}' :: rest => some ([], rest)
        | rest => pairs? fuel depth rest
      return (.table .braces (← assignAll pairs []), rest)
  | _, _, cs => scalar cs

/-- The rest of an array. -/
def items? : Nat → Nat → List Char → Option (List Toml × List Char)
  | 0, _, _ => none
  | fuel + 1, depth, cs => match skipAll cs with
    | ']' :: rest => some ([], rest)
    | cs => do
      let (v, rest) ← value? fuel depth cs
      match skipAll rest with
      | ',' :: rest =>
        let (vs, rest) ← items? fuel depth rest
        return (v :: vs, rest)
      | ']' :: rest => return ([v], rest)
      | _ => none

/-- The rest of a table between braces. -/
def pairs? : Nat → Nat → List Char → Option (List (List String × Toml) × List Char)
  | 0, _, _ => none
  | fuel + 1, depth, cs => do
    let (key, rest) ← key? depthLimit cs
    let rest ← char? '=' rest
    let (v, rest) ← value? fuel depth (skipSpace rest)
    match skipSpace rest with
    | ',' :: rest =>
      let (ps, rest) ← pairs? fuel depth rest
      return ((key, v) :: ps, rest)
    | '}' :: rest => return ([(key, v)], rest)
    | _ => none

end

/-! ### Lines -/

/-- A line of a file that is not blank. -/
inductive Line where
  | header (path : List String)
  /-- The header of one of several tables of one name. -/
  | itemHeader (path : List String)
  | pair (key : List String) (v : Toml)

/-- What follows the end of a line, before which there may be blanks and a comment. -/
def lineEnd? (cs : List Char) : Option (List Char) :=
  match skipComment (skipSpace cs) with
  | [] => some []
  | cs => newline? cs

def line? (cs : List Char) : Option (Line × List Char) :=
  match cs with
  | '[' :: '[' :: rest => do
    let (path, rest) ← key? depthLimit rest
    let rest ← char? ']' (← char? ']' rest)
    return (.itemHeader path, ← lineEnd? rest)
  | '[' :: rest => do
    let (path, rest) ← key? depthLimit rest
    return (.header path, ← lineEnd? (← char? ']' rest))
  | _ => do
    let (key, rest) ← key? depthLimit cs
    let rest ← char? '=' rest
    let (v, rest) ← value? (rest.length + 1) depthLimit (skipSpace rest)
    return (.pair key v, ← lineEnd? rest)

/-- The lines of a file that are not blank. -/
def lines? : Nat → List Char → Option (List Line)
  | 0, _ => none
  | fuel + 1, cs => match skipSpace cs with
    | [] => some []
    | '#' :: rest => do lines? fuel (← lineEnd? ('#' :: rest))
    | cs => match newline? cs with
      | some rest => lines? fuel rest
      | none => do
        let (line, rest) ← line? cs
        return line :: (← lines? fuel rest)

/-! ### Sections -/

/-- A header with the pairs below it; the first section has none. -/
structure Section where
  header : Option Line
  pairs : List (List String × Toml)

/-- Divides lines into sections. -/
def sections : List Line → List Section
  | [] => [⟨none, []⟩]
  | .pair key v :: rest => match sections rest with
    | ⟨none, ps⟩ :: others => ⟨none, (key, v) :: ps⟩ :: others
    | others => ⟨none, [(key, v)]⟩ :: others
  | header :: rest => match sections rest with
    | ⟨none, ps⟩ :: others => ⟨none, []⟩ :: ⟨some header, ps⟩ :: others
    | others => ⟨none, []⟩ :: ⟨some header, []⟩ :: others

/-- Adds a section to the table of a file. A table has one header, unless it was only implied. -/
def Section.addTo (s : Section) (root : Members) : Option Members :=
  match s.header with
  | some (.header path) =>
    atHeader (fun
      | none => (assignAll s.pairs []).map (.table .header)
      | some (.table .implied ms) => (assignAll s.pairs ms).map (.table .header)
      | some _ => none) path root
  | some (.itemHeader path) =>
    atHeader (fun
      | none => (assignAll s.pairs []).map fun ms => .tables [ms]
      | some (.tables items) => (assignAll s.pairs []).map fun ms => .tables (items ++ [ms])
      | some _ => none) path root
  | _ => assignAll s.pairs root

/-- Drops the mark that tells the order of bytes. -/
def dropMark : List Char → List Char
  | '\ufeff' :: rest => rest
  | cs => cs

/-- Reads a file. -/
def read (text : String) : Option Members := do
  let cs := dropMark text.toList
  (sections (← lines? (cs.length + 1) cs)).foldlM (fun root s => s.addTo root) []

end RepoAudit.Toml
