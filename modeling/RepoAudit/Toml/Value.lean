/-!
# Values of configuration files

Tables remember how they came about, because that decides what may be added to them later: a table
is defined once, by a header, by a dotted key or between braces.
-/

namespace RepoAudit

/-- How a table came about. -/
inductive Toml.Origin where
  /-- By a header of its own. -/
  | header
  /-- By a header of a table inside it. -/
  | implied
  /-- By a dotted key. -/
  | dotted
  /-- Between braces. -/
  | braces
deriving DecidableEq, Repr

inductive Toml where
  | string (s : String)
  | int (n : Int)
  | float (x : Float)
  | bool (b : Bool)
  /-- A date, a time, or both. -/
  | date
  | array (items : List Toml)
  /-- Tables of one name, each with a header of its own. -/
  | tables (items : List (List (String × Toml)))
  | table (origin : Toml.Origin) (members : List (String × Toml))
deriving Inhabited

namespace Toml

abbrev Members := List (String × Toml)

/-- Replaces what is stored under a key by what `f` makes of it, which may refuse. -/
def alter (key : String) (f : Option Toml → Option Toml) : Members → Option Members
  | [] => (f none).map fun v => [(key, v)]
  | (k, v) :: rest =>
    if k == key then (f (some v)).map fun v => (k, v) :: rest
    else (alter key f rest).map ((k, v) :: ·)

/-- Changes the last of several tables. -/
def alterLast (f : Members → Option Members) : List Members → Option (List Members)
  | [] => none
  | [ms] => (f ms).map ([·])
  | ms :: rest => (alterLast f rest).map (ms :: ·)

/-- Changes what is at the end of the path of a header. Tables on the way that are missing are
implied. -/
def atHeader (f : Option Toml → Option Toml) : List String → Members → Option Members
  | [], _ => none
  | [key], ms => alter key f ms
  | key :: next :: path, ms =>
    alter key (fun
      | none => (atHeader f (next :: path) []).map (.table .implied)
      | some (.table .braces _) => none
      | some (.table origin inner) => (atHeader f (next :: path) inner).map (.table origin)
      | some (.tables items) => (alterLast (atHeader f (next :: path)) items).map .tables
      | some _ => none) ms

/-- Stores a value under a key that is new. -/
def store (key : String) (v : Toml) : Members → Option Members :=
  alter key fun
    | none => some v
    | some _ => none

/-- Stores a value under a dotted key. The tables on the way must not have headers or braces of
their own, and the last of them must have come about by a dotted key. -/
def assign (v : Toml) : List String → Members → Option Members
  | [], _ => none
  | [key], ms => store key v ms
  | key :: next :: path, ms =>
    let isLast := path.isEmpty
    alter key (fun
      | none => (assign v (next :: path) []).map (.table .dotted)
      | some (.table .dotted inner) => (assign v (next :: path) inner).map (.table .dotted)
      | some (.table .implied inner) =>
        if isLast then none else (assign v (next :: path) inner).map (.table .implied)
      | some (.tables items) =>
        if isLast then none else (alterLast (assign v (next :: path)) items).map .tables
      | some _ => none) ms

/-- Stores several values under dotted keys, one after another. -/
def assignAll (pairs : List (List String × Toml)) (ms : Members) : Option Members :=
  pairs.foldlM (fun ms (path, v) => assign v path ms) ms

end Toml
end RepoAudit
