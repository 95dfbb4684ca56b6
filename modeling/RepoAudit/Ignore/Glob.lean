import RepoAudit.Text.Utf8

/-!
# Patterns of ignore files

Patterns are matched against the bytes of a path. A star stands for any bytes but slashes, two
stars for whole directories; brackets enclose classes and braces enclose alternatives.
-/

namespace RepoAudit.Ignore

open Text

inductive Piece where
  | byte (b : UInt8)
  /-- Any byte but a slash. -/
  | any
  /-- Any bytes but slashes. -/
  | many
  | oneOf (negated : Bool) (ranges : List (UInt8 × UInt8))
  /-- Any directories at the start of a path. -/
  | leading
  /-- Any directories between two slashes, which may be one. -/
  | between
  /-- Everything behind a slash. -/
  | behind
  | choice (alternatives : List (List Piece))
deriving Inhabited

abbrev Glob := List Piece

/-! ### Matching -/

def slash : UInt8 := 0x2F

/-- All ends of a list, the list itself first. -/
def ends : List UInt8 → List (List UInt8)
  | [] => [[]]
  | b :: rest => (b :: rest) :: ends rest

/-- What follows each slash. -/
def afterSlashes : List UInt8 → List (List UInt8)
  | [] => []
  | b :: rest => if b == slash then rest :: afterSlashes rest else afterSlashes rest

/-- What may be left when bytes without slashes are taken from the start. -/
def afterMany : List UInt8 → List (List UInt8)
  | [] => [[]]
  | b :: rest => (b :: rest) :: (if b == slash then [] else afterMany rest)

mutual

/-- What may be left of a path when a piece has matched its start. -/
def Piece.rests : Piece → List UInt8 → List (List UInt8)
  | .byte b, path => match path with
    | c :: rest => if c == b then [rest] else []
    | [] => []
  | .any, path => match path with
    | c :: rest => if c == slash then [] else [rest]
    | [] => []
  | .many, path => afterMany path
  | .oneOf negated ranges, path => match path with
    | c :: rest =>
      if ranges.any (fun r => r.1 ≤ c && c ≤ r.2) != negated then [rest] else []
    | [] => []
  | .leading, path => path :: afterSlashes path
  | .between, path => match path with
    | c :: rest => if c == slash then rest :: afterSlashes rest else []
    | [] => []
  | .behind, path => match path with
    | c :: rest => if c == slash then ends rest else []
    | [] => []
  | .choice alternatives, path => choiceRests alternatives path

def globRests : List Piece → List UInt8 → List (List UInt8)
  | [], path => [path]
  | p :: ps, path => (p.rests path).flatMap (globRests ps)

def choiceRests : List (List Piece) → List UInt8 → List (List UInt8)
  | [], _ => []
  | g :: gs, path => globRests g path ++ choiceRests gs path

end

/-- Whether a pattern matches a whole path. Two stars alone match every path. -/
def Glob.isMatch (g : Glob) (path : List UInt8) : Bool :=
  match g with
  | [.leading] => true
  | _ => (globRests g path).any List.isEmpty

/-! ### Reading -/

/-- Alternatives between braces that are being read: those that are done and the pieces of the
current one, both backwards. -/
structure Level where
  done : List Glob := []
  current : Glob := []

/-- The levels of braces around the place of reading, the innermost one first. -/
abbrev Levels := List Level

namespace Levels

def push (p : Piece) : Levels → Levels
  | l :: rest => { l with current := p :: l.current } :: rest
  | [] => []

def pushAll (ps : List Piece) (ls : Levels) : Levels := ps.foldl (fun ls p => ls.push p) ls

def pushChar (c : Char) (ls : Levels) : Levels := ls.pushAll ((encoded [c]).map .byte)

/-- Whether the current alternative has no piece yet. -/
def isFresh : Levels → Bool
  | l :: _ => l.current.isEmpty
  | [] => true

/-- Whether the place of reading is between braces. -/
def isInner (ls : Levels) : Bool := 1 < ls.length

/-- Ends an alternative and begins another. -/
def next : Levels → Levels
  | l :: rest => ⟨l.current.reverse :: l.done, []⟩ :: rest
  | [] => []

/-- Ends the alternatives. Empty ones do not count. -/
def close? : Levels → Option Levels
  | l :: outer :: rest =>
    let all := ((l.current.reverse :: l.done).reverse).filter (!·.isEmpty)
    if all.isEmpty then some (outer :: rest)
    else some ({ outer with current := .choice all :: outer.current } :: rest)
  | _ => none

/-- Puts two stars behind what was read: after `**/` there is nothing new to say. -/
def pushDirectories (p : Piece) : Levels → Levels
  | l :: rest => match l.current with
    | .leading :: _ => l :: rest
    | .behind :: _ => l :: rest
    | _ :: before => { l with current := p :: before } :: rest
    | [] => l :: rest
  | [] => []

end Levels

/-- The range of bytes from one character to another. -/
def byteRanges (r : Char × Char) : List (UInt8 × UInt8) :=
  if r.1 == r.2 then (encoded [r.1]).map fun b => (b, b)
  else
    let first := encoded [r.1]
    let last := encoded [r.2]
    first.dropLast.map (fun b => (b, b)) ++
      [(first.getLast?.getD 0, last.headD 0)] ++ (last.drop 1).map fun b => (b, b)

/-- Reads the ranges of a class. A bracket that comes first and a hyphen at either end stand for
themselves; `open_` tells that a hyphen was read that asks for the end of a range. -/
def ranges? (first open_ : Bool) (ranges : List (Char × Char)) :
    List Char → Option (List (Char × Char) × List Char)
  | [] => none
  | c :: rest =>
    if c == ']' && !first then
      some ((if open_ then ('-', '-') :: ranges else ranges).reverse, rest)
    else if c == '-' && !first && !open_ then ranges? false true ranges rest
    else if open_ then
      match ranges with
      | (low, _) :: before =>
        if c < low then none else ranges? false false ((low, c) :: before) rest
      | [] => none
    else ranges? false false ((c, c) :: ranges) rest

/-- Whether brackets are closed somewhere, so that they enclose a class. -/
def isClosed : List Char → Bool
  | '!' :: _ :: rest | '^' :: _ :: rest => rest.contains ']'
  | _ :: rest => rest.contains ']'
  | [] => false

/-- Reads a class behind its opening bracket. -/
def class? (cs : List Char) : Option (Piece × List Char) := do
  let (negated, cs) := match cs with
    | '!' :: rest | '^' :: rest => (true, rest)
    | _ => (false, cs)
  let (ranges, rest) ← ranges? true false [] cs
  return (.oneOf negated (ranges.flatMap byteRanges), rest)

/-- Two stars that are no more than one. -/
def twoStars (ls : Levels) : Levels := ls.pushAll [.many, .many]

/-- Reads a pattern; `before` is the character read last. -/
def glob? : Nat → Option Char → Levels → List Char → Option Glob
  | 0, _, _, _ => none
  | _, _, ls, [] => match ls with
    | [l] => some l.current.reverse
    | _ => none
  | fuel + 1, before, ls, '*' :: '*' :: rest =>
    if ls.isFresh then
      match rest with
      | [] => glob? fuel (some '*') (ls.push .leading) []
      | '/' :: rest => glob? fuel (some '/') (ls.push .leading) rest
      | _ => glob? fuel (some '*') (twoStars ls) rest
    else if before != some '/' &&
        !(ls.isInner && (before == some ',' || before == some '{')) then
      glob? fuel (some '*') (twoStars ls) rest
    else match rest with
      | [] => glob? fuel (some '*') (ls.pushDirectories .behind) []
      | c :: rest =>
        if c == '/' then glob? fuel (some '/') (ls.pushDirectories .between) rest
        else if ls.isInner && (c == ',' || c == '}') then
          glob? fuel (some '*') (ls.pushDirectories .behind) (c :: rest)
        else glob? fuel (some '*') (twoStars ls) (c :: rest)
  | fuel + 1, _, ls, c :: rest =>
    if c == '?' then glob? fuel (some c) (ls.push .any) rest
    else if c == '*' then glob? fuel (some c) (ls.push .many) rest
    else if c == '[' && isClosed rest then do
      let (p, rest) ← class? rest
      glob? fuel (some ']') (ls.push p) rest
    else if c == '{' then glob? fuel (some c) ({} :: ls) rest
    else if c == '}' then do glob? fuel (some c) (← ls.close?) rest
    else if c == ',' && ls.isInner then glob? fuel (some c) ls.next rest
    else if c == '\\' then
      match rest with
      | [] => none
      | d :: rest => glob? fuel (some d) (ls.pushChar d) rest
    else glob? fuel (some c) (ls.pushChar c) rest

/-- Reads a pattern. -/
def Glob.ofText? (cs : List Char) : Option Glob := glob? (cs.length + 1) none [{}] cs

end RepoAudit.Ignore
