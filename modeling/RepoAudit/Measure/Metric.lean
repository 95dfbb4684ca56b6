import RepoAudit.Files.Path
import RepoAudit.Json.Value
import RepoAudit.Ordered.Map
import RepoAudit.Source.Complexity

/-!
# Metrics from a measuring program

The program gives for each file a list of blocks with their complexities, or one index of
maintainability. Blocks may hold further blocks, and some are listed twice.
-/

namespace RepoAudit.Measure

def member? (name : String) : Json → Option Json
  | .object members => members.lookup name
  | _ => none

def text? : Json → Option String
  | .string s => some s
  | _ => none

def number? : Json → Option Float
  | .float x => some x
  | .int n => some (Float.ofInt n)
  | _ => none

def count? : Json → Option Nat
  | .int n => if n < 0 then none else some n.toNat
  | _ => none

mutual

/-- A block and the blocks that it holds. -/
def blocksOf : Json → List Json
  | .object members => .object members :: blocksOfMembers members
  | v => [v]

def blocksOfMembers : List (String × Json) → List Json
  | [] => []
  | (name, .array items) :: rest =>
    if name == "methods" then blocksOfItems items else blocksOfMembers rest
  | _ :: rest => blocksOfMembers rest

def blocksOfItems : List Json → List Json
  | [] => []
  | v :: rest => blocksOf v ++ blocksOfItems rest

end

/-- A block that counts: a function by its line and name, and its complexity. -/
structure Block where
  line : Nat
  name : String
  complexity : Float

def block? (v : Json) : Option Block := do
  let kind ← (member? "type" v).bind text?
  if kind == "function" || kind == "method" then
    some {
      line := ((member? "lineno" v).bind count?).getD 0
      name := ((member? "name" v).bind text?).getD ""
      complexity := ((member? "complexity" v).bind number?).getD 1.0 }
  else none

/-- The first of the blocks with one line and name. -/
def distinct (blocks : List Block) : List Block :=
  (blocks.foldl (fun kept b =>
    if kept.any fun k => k.line == b.line && k.name == b.name then kept else b :: kept) []).reverse

/-- What a block adds to the complexity of its file. -/
def Block.excess (b : Block) : Float :=
  let x := b.complexity - 1.0
  if x > 0.0 then x else 0.0

/-- The complexity of a file with these blocks. -/
def complexityOf (blocks : List Json) : Float :=
  1.0 + ((distinct ((blocksOfItems blocks).filterMap block?)).map Block.excess).foldl (· + ·) 0.0

/-- The complexity of each file. -/
def complexities : Json → SortedMap String Float
  | .object members => .ofList (members.filterMap fun (path, v) => match v with
    | .array blocks => some (Files.normalized path, complexityOf blocks)
    | _ => none)
  | _ => ∅

/-- The index of maintainability of each file. -/
def maintainabilities : Json → SortedMap String Float
  | .object members => .ofList (members.filterMap fun (path, v) => do
    let x ← (member? "mi" v).bind number?
    return (Files.normalized path, Source.clamp 0.0 100.0 x))
  | _ => ∅

end RepoAudit.Measure
