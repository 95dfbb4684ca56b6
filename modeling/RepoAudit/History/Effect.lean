import RepoAudit.Config.Basic
import RepoAudit.History.Log
import RepoAudit.Project.Basic

/-!
# What a history says of a project

Commits, contributors, the share of each contributor in each file, owners, and files that change
together. Only changes to files of the project count, and those that are excluded do not. Whatever
an earlier history said is replaced.
-/

namespace RepoAudit.History

open Project

/-- Numbers of lines. -/
structure Lines where
  added : Nat
  deleted : Nat
deriving DecidableEq, Repr

def Lines.zero : Lines := ⟨0, 0⟩

def Lines.plus (a b : Lines) : Lines := ⟨a.added + b.added, a.deleted + b.deleted⟩

def Lines.sum (xs : List Lines) : Lines := xs.foldr Lines.plus .zero

/-- A commit with what it did to each file that counts. -/
structure Touch where
  entry : Entry
  author : String
  files : SortedMap String Lines

/-- Adds up the changes to each path for which they count. -/
def linesByPath (counts : String → Bool) (changes : List Change) : SortedMap String Lines :=
  changes.foldl
    (fun m c =>
      if counts c.path then
        m.alter c.path fun before => some ((before.getD .zero).plus ⟨c.added, c.deleted⟩)
      else m) ∅

def touch (counts : String → Bool) (e : Entry) : Touch :=
  ⟨e, personId e.name e.email, linesByPath counts e.changes⟩

namespace Touch

def total (t : Touch) : Lines := .sum t.files.values

/-- What the commit did to the file with an identifier. -/
def linesOf? (t : Touch) (id : String) : Option Lines :=
  (t.files.entries.find? fun e => fileId e.1 == id).map (·.2)

def commit (t : Touch) : Commit where
  id := commitId t.entry.sha
  sha := t.entry.sha
  author := t.author
  timestamp := t.entry.time.rfc3339
  message := t.entry.message
  files := t.files.keys.map fileId
  linesAdded := t.total.added
  linesDeleted := t.total.deleted

end Touch

/-! ### Files -/

/-- The lines that each author added to a file, from what each commit did to it. -/
def contributions (own : List (String × Lines)) : SortedMap String Nat :=
  own.foldl (fun m o => m.alter o.1 fun n => some (n.getD 0 + o.2.added)) ∅

/-- The entry with the greatest value, the first of several. -/
def greatest (entries : List (String × Nat)) : Option (String × Nat) :=
  entries.foldl
    (fun best e => match best with
      | some b => if b.2 < e.2 then some e else some b
      | none => some e) none

/-- The contributor with the most added lines, if the share reaches the threshold. -/
def owner? (threshold : Float) (contributions : SortedMap String Nat) : Option String := do
  let total := contributions.values.foldr (· + ·) 0
  if total = 0 then none
  else
    let (person, lines) ← greatest contributions.entries
    if Float.ofNat lines / Float.ofNat total ≥ threshold then some person else none

/-- A file with what the commits did to it. -/
def credit (threshold : Float) (touches : List Touch) (id : String) (f : File) : File :=
  let own := touches.filterMap fun t => (t.linesOf? id).map fun lines => (t.author, lines)
  let total := Lines.sum (own.map (·.2))
  let shares := contributions own
  { f with
    linesAdded := total.added
    linesDeleted := total.deleted
    churn := total.added + total.deleted
    commitCount := own.length
    contributions := shares
    owner := owner? threshold shares }

/-! ### Contributors -/

/-- A contributor with one more commit; name and address are those of the first one. -/
def addCommit (t : Touch) (before : Option Person) : Person :=
  let p := before.getD { id := t.author, name := t.entry.name, email := t.entry.email }
  { p with
    commits := p.commits + 1
    linesAdded := p.linesAdded + t.total.added
    linesDeleted := p.linesDeleted + t.total.deleted }

def people (touches : List Touch) : SortedMap String Person :=
  touches.foldl (fun m t => m.alter t.author fun before => some (addCommit t before)) ∅

/-- Gives each contributor the files owned. -/
def withOwned (files : List File) (people : SortedMap String Person) : SortedMap String Person :=
  people.mapValues fun id p =>
    { p with owns := .ofList ((files.filter (·.owner == some id)).map (·.id)) }

/-! ### Coupling -/

/-- The pairs of an element and a later one. -/
def laterPairs : List String → List (String × String)
  | [] => []
  | x :: rest => rest.map (x, ·) ++ laterPairs rest

/-- How many commits touch both files of a pair. -/
def coupling (touches : List Touch) : SortedMap UnorderedPair Nat :=
  ((touches.flatMap fun t => laterPairs (t.files.keys.map fileId)).foldl
    (fun p (x, y) => p.couple x y 1) (∅ : Project)).coupling

end RepoAudit.History

namespace RepoAudit

/-- The project with what its history says, in place of what an earlier one said. -/
def Project.withHistory (p : Project) (config : Config) (entries : List History.Entry) :
    Project :=
  let tracked := SortedSet.ofList (p.files.values.map (·.path))
  let touches := entries.map (History.touch fun path =>
    tracked.contains path && !config.exclude.excludes path)
  let files := p.files.mapValues (History.credit config.history.ownershipThreshold touches)
  { p with
    files
    commits := .ofList (touches.map fun t => (t.commit.id, t.commit))
    contributors := History.withOwned files.values (History.people touches)
    coupling := (History.coupling touches).filter fun _ n =>
      config.history.minCouplingWeight ≤ n }

end RepoAudit
