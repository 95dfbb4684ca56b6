import RepoAudit.Digest.Checksum
import RepoAudit.Glob.Path

/-!
# Configurations

The settings of an audit, in sections. Every setting has a default.
-/

namespace RepoAudit

namespace Config

/-- Which paths are left aside. -/
structure Exclude where
  paths : List String := []
  /-- Whether the default patterns are left out. -/
  skipDefaults : Bool := false
deriving DecidableEq, Repr

/-- The patterns in force: the default ones and those given, each once. -/
def Exclude.patterns (e : Exclude) : List String :=
  e.paths.foldl (fun ps p => if ps.contains p then ps else ps ++ [p])
    (if e.skipDefaults then [] else Glob.defaultPatterns)

def Exclude.excludes (e : Exclude) (path : String) : Bool := Glob.isExcluded path e.patterns

/-- Which files are taken into account. -/
structure Walk where
  /-- The extensions of files to take; none for all. -/
  extensions : List String := []
  /-- The greatest number of files; zero for no bound. -/
  maxFiles : Nat := 0
  hash : Digest.Algorithm := .sha256
  /-- Greater files are left aside. -/
  maxFileBytes : Nat := 2 * 1024 * 1024
deriving DecidableEq, Repr

structure History where
  since : Option String := none
  /-- The greatest number of commits; zero for no bound. -/
  maxCommits : Nat := 0
  /-- The share of added lines that makes a contributor the owner of a file. -/
  ownershipThreshold : Float := 0.5
  /-- Pairs of files that change together less often are dropped. -/
  minCouplingWeight : Nat := 1
deriving Repr

structure Hotspots where
  /-- How many files at most are reported as hotspots. -/
  topN : Nat := 50
deriving DecidableEq, Repr

structure Complexity where
  /-- Whether another program may measure files. -/
  external : Bool := true
  timeoutSecs : Nat := 120
deriving DecidableEq, Repr

structure Gate where
  /-- Files or directories of shapes. -/
  shapes : List String := []
  /-- Whether warnings fail the gate. -/
  strict : Bool := false
  inference : Bool := false
deriving DecidableEq, Repr

end Config

structure Config where
  exclude : Config.Exclude := {}
  walk : Config.Walk := {}
  history : Config.History := {}
  hotspots : Config.Hotspots := {}
  complexity : Config.Complexity := {}
  gate : Config.Gate := {}
deriving Repr

end RepoAudit
