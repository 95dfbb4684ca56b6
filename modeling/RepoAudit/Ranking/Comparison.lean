import RepoAudit.Decimal.Places
import RepoAudit.Json.Printer
import RepoAudit.Project.Basic
import RepoAudit.Ranking.Hotness
import RepoAudit.Text.Casing

/-!
# Comparisons

What has changed from an earlier state of a project to a later one: issues that are new, issues
that are gone, and files whose hotness differs.
-/

namespace RepoAudit.Ranking

open Project

/-- The hotness of a file before and after; there is none where the file does not exist. -/
structure Delta where
  path : String
  old : Option Float
  new : Option Float
  delta : Float

structure Comparison where
  newIssues : List Issue
  fixedIssues : List Issue
  /-- The greatest changes come first. -/
  deltas : List Delta

/-- Differences up to this one are taken for none. -/
def tolerance : Float := 1e-9

/-- The change of a file that is there afterwards. -/
def changed? (before : Option File) (f : File) : Option Delta :=
  match before with
  | some b =>
    let delta := f.hotness - b.hotness
    if delta.abs > tolerance then some ⟨f.path, some b.hotness, some f.hotness, delta⟩ else none
  | none => some ⟨f.path, none, some f.hotness, f.hotness⟩

/-- The change of a file that is no longer there. -/
def removed (f : File) : Delta := ⟨f.path, some f.hotness, none, -f.hotness⟩

/-- The place of a number in the order of sizes. What is not a number comes behind all numbers. -/
def magnitude (x : Float) : Nat := x.abs.toBits.toNat

def Delta.order (a b : Delta) : Ordering :=
  (compare (magnitude b.delta) (magnitude a.delta)).then (compare a.path b.path)

def comparison (old new : Project) : Comparison :=
  let kept := new.files.entries.filterMap fun (key, f) => changed? (old.files.get? key) f
  let gone := (old.files.filter fun id _ => !new.files.contains id).values.map removed
  { newIssues := new.issues.values.filter fun i => !old.issues.contains i.id
    fixedIssues := old.issues.values.filter fun i => !new.issues.contains i.id
    deltas := (kept ++ gone).mergeSort fun a b => (a.order b).isLE }

namespace Comparison

/-- New issues that are high or critical. -/
def regressions (c : Comparison) : List Issue :=
  c.newIssues.filter fun i => Severity.high.rank ≤ i.severity.rank

def hasRegressions (c : Comparison) : Bool := !c.regressions.isEmpty

def isEmpty (c : Comparison) : Bool :=
  c.newIssues.isEmpty && c.fixedIssues.isEmpty && c.deltas.isEmpty

def issueJson (i : Issue) : Json :=
  .object [
    ("id", .string i.id), ("kind", .string i.kind.name), ("severity", .string i.severity.name),
    ("title", .string i.title), ("description", .string i.description),
    ("file", .optional .string i.file), ("score", .optional .float i.score)]

def deltaJson (d : Delta) : Json :=
  .object [
    ("path", .string d.path), ("old", .optional .float d.old), ("new", .optional .float d.new),
    ("delta", .float d.delta)]

def toJson (c : Comparison) : Json :=
  .object [
    ("new_issues", .array (c.newIssues.map issueJson)),
    ("fixed_issues", .array (c.fixedIssues.map issueJson)),
    ("hotness_deltas", .array (c.deltas.map deltaJson))]

/-! ### As a text -/

/-- How many changes of hotness the text shows. -/
def shownDeltas : Nat := 10

def issueLine (sign : String) (i : Issue) : String :=
  s!"  {sign} [{Text.uppered i.severity.name}] {i.title}
"

/-- Writes a number with its sign and two places. -/
def withSign (x : Float) : String :=
  if (Decimal.fixed 2 x).startsWith "-" then Decimal.fixed 2 x else "+" ++ Decimal.fixed 2 x

def deltaLine (d : Delta) : String :=
  let side (absent : String) : Option Float → String
    | some x => Decimal.fixed 2 x
    | none => absent
  let before := side "new" d.old
  let after := side "gone" d.new
  s!"  {withSign d.delta}  {before} → {after}  {d.path}
"

/-- Says how many of a list of `all` were left out after the first `shown`. -/
def moreLine (all shown : Nat) : String :=
  if shown < all then s!"  ... and {all - shown} more
" else ""

def heading : String := "
RepoQ Diff
──────────────────────────────────────
"

def deltasText (deltas : List Delta) : String :=
  if deltas.isEmpty then ""
  else "
  Hotness changes
" ++ String.join ((deltas.take shownDeltas).map deltaLine) ++ moreLine deltas.length shownDeltas

def regressionsText (count : Nat) : String :=
  if count = 0 then "" else s!"
  ✗ {count} new high/critical issue(s)
"

def toText (c : Comparison) : String :=
  heading ++
    if c.isEmpty then "  No changes.
"
    else
      s!"
  {c.newIssues.length} new issue(s), {c.fixedIssues.length} fixed
" ++ String.join (c.newIssues.map (issueLine "+")) ++
        String.join (c.fixedIssues.map (issueLine "-")) ++ deltasText c.deltas ++
        regressionsText c.regressions.length

end Comparison
end RepoAudit.Ranking
