import RepoAudit.Config.Basic
import RepoAudit.Failure
import RepoAudit.Toml.Reader

/-!
# Reading configurations

A configuration file has a table for each section. Settings that are not given keep their defaults;
names of sections that do not exist are refused, those of settings are passed over.
-/

namespace RepoAudit.Config

/-! ### Typed values -/

def string? : Toml → Option String
  | .string s => some s
  | _ => none

def bool? : Toml → Option Bool
  | .bool b => some b
  | _ => none

def nat? : Toml → Option Nat
  | .int n => if n < 0 then none else some n.toNat
  | _ => none

def float? : Toml → Option Float
  | .float x => some x
  | .int n => some (Float.ofInt n)
  | _ => none

def strings? : Toml → Option (List String)
  | .array items => items.mapM string?
  | _ => none

/-- One of several names, which may also be written as the only key of a table with an empty
value. -/
def choice? : Toml → Option String
  | .string s => some s
  | .table _ [(name, .array [])] => some name
  | .table _ [(name, .table _ [])] => some name
  | _ => none

def algorithm? (v : Toml) : Option Digest.Algorithm := do
  let name ← choice? v
  [Digest.Algorithm.sha256, Digest.Algorithm.xxh3].find? (·.name == name)

/-- The settings of a section, which may also be given as an array in the order of their names. A
date is a section without known settings. -/
def settings? (names : List String) : Toml → Option Toml.Members
  | .table _ ms => some ms
  | .array items => some (names.zip items)
  | .date => some []
  | _ => none

/-- A setting, or its default. -/
def setting {α : Type} (ms : Toml.Members) (name : String) (read : Toml → Option α) (absent : α) :
    Option α :=
  match ms.lookup name with
  | some v => read v
  | none => some absent

/-! ### Sections -/

def exclude? (v : Toml) : Option Exclude := do
  let ms ← settings? ["paths", "skip_defaults"] v
  let absent : Exclude := {}
  return {
    paths := ← setting ms "paths" strings? absent.paths
    skipDefaults := ← setting ms "skip_defaults" bool? absent.skipDefaults }

def walk? (v : Toml) : Option Walk := do
  let ms ← settings? ["extensions", "max_files", "hash", "max_file_bytes"] v
  let absent : Walk := {}
  return {
    extensions := ← setting ms "extensions" strings? absent.extensions
    maxFiles := ← setting ms "max_files" nat? absent.maxFiles
    hash := ← setting ms "hash" algorithm? absent.hash
    maxFileBytes := ← setting ms "max_file_bytes" nat? absent.maxFileBytes }

def history? (v : Toml) : Option History := do
  let ms ← settings? ["since", "max_commits", "ownership_threshold", "min_coupling_weight"] v
  let absent : History := {}
  return {
    since := ← setting ms "since" (fun v => (string? v).map some) absent.since
    maxCommits := ← setting ms "max_commits" nat? absent.maxCommits
    ownershipThreshold := ← setting ms "ownership_threshold" float? absent.ownershipThreshold
    minCouplingWeight := ← setting ms "min_coupling_weight" nat? absent.minCouplingWeight }

def hotspots? (v : Toml) : Option Hotspots := do
  let ms ← settings? ["top_n"] v
  let absent : Hotspots := {}
  return { topN := ← setting ms "top_n" nat? absent.topN }

def complexity? (v : Toml) : Option Complexity := do
  let ms ← settings? ["external", "timeout_secs"] v
  let absent : Complexity := {}
  return {
    external := ← setting ms "external" bool? absent.external
    timeoutSecs := ← setting ms "timeout_secs" nat? absent.timeoutSecs }

def gate? (v : Toml) : Option Gate := do
  let ms ← settings? ["shapes", "strict", "inference"] v
  let absent : Gate := {}
  return {
    shapes := ← setting ms "shapes" strings? absent.shapes
    strict := ← setting ms "strict" bool? absent.strict
    inference := ← setting ms "inference" bool? absent.inference }

def sectionNames : List String :=
  ["exclude", "structure", "history", "hotspots", "complexity", "gate"]

def ofMembers? (ms : Toml.Members) : Option Config := do
  if !(ms.all fun m => sectionNames.contains m.1) then none
  return {
    exclude := ← setting ms "exclude" exclude? {}
    walk := ← setting ms "structure" walk? {}
    history := ← setting ms "history" history? {}
    hotspots := ← setting ms "hotspots" hotspots? {}
    complexity := ← setting ms "complexity" complexity? {}
    gate := ← setting ms "gate" gate? {} }

/-- Reads the text of a configuration. -/
def read (text : String) : Except ConfigFault Config :=
  match (Toml.read text).bind ofMembers? with
  | none => .error .unreadable
  | some c =>
    let x := c.history.ownershipThreshold
    if 0.0 ≤ x && x ≤ 1.0 then .ok c else .error (.ownershipThreshold x)

end RepoAudit.Config
