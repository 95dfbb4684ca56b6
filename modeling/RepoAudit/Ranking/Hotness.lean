import RepoAudit.Decimal.Places
import RepoAudit.Project.Basic

/-!
# Hotspots

The hotness of a file is its share of the greatest churn times a weighted sum of its shares of the
greatest size and of the greatest complexity. A file that nobody touches is no hotspot. The hottest
files get an issue each.
-/

namespace RepoAudit.Ranking

open Project

def sizeWeight : Float := 0.7

def complexityWeight : Float := 0.3

def highThreshold : Float := 0.66

def mediumThreshold : Float := 0.33

/-- The share of a value in the greatest one; none if that is not positive. -/
def share (value greatest : Float) : Float := if greatest > 0.0 then value / greatest else 0.0

/-- The greatest of several values and zero. -/
def greatest (values : List Float) : Float :=
  values.foldl (fun best x => if best < x then x else best) 0.0

def clampToUnit (x : Float) : Float := if x < 0.0 then 0.0 else if x > 1.0 then 1.0 else x

def severityOf (hotness : Float) : Severity :=
  if hotness ≥ highThreshold then .high
  else if hotness ≥ mediumThreshold then .medium
  else .low

def File.complexityOrZero (f : File) : Float := f.complexity.getD 0.0

/-- The hotness of a file among files. -/
def hotness (files : List File) (f : File) : Float :=
  let churn := share (.ofNat f.churn) (greatest (files.map fun f => .ofNat f.churn))
  let size := share (.ofNat f.loc) (greatest (files.map fun f => .ofNat f.loc))
  let complexity := share (File.complexityOrZero f) (greatest (files.map File.complexityOrZero))
  clampToUnit (churn * (sizeWeight * size + complexityWeight * complexity))

/-- Gives every file its hotness. -/
def scored (files : SortedMap String File) : SortedMap String File :=
  let all := files.values
  files.mapValues fun _ f => { f with hotness := hotness all f }

/-- Greater numbers come first. -/
def descending (x y : Float) : Ordering := if y < x then .lt else if x < y then .gt else .eq

/-- Hotter files come first, then those with the smaller path. -/
def hotterFirst (a b : File) : Ordering :=
  (descending a.hotness b.hotness).then (compare a.path b.path)

def ranked (files : List File) : List File := files.mergeSort fun a b => (hotterFirst a b).isLE

/-- The files that are hot at all, the hottest first. -/
def hottest (files : List File) : List File := (ranked files).filter fun f => f.hotness > 0.0

/-- The issue of a hot file. -/
def hotspot (f : File) : Issue :=
  let complexity := match f.complexity with
    | some c => Decimal.fixed 0 c
    | none => "n/a"
  { id := issueId .hotspot f.path
    kind := .hotspot
    severity := severityOf f.hotness
    title := s!"Hotspot: {f.path}"
    description :=
      s!"hotness {Decimal.fixed 2 f.hotness} (churn {f.churn}, {f.loc} LOC, complexity {complexity})"
    file := some f.id
    score := some f.hotness }

end RepoAudit.Ranking

namespace RepoAudit

/-- The project with the hotness of its files. -/
def Project.scored (p : Project) : Project := { p with files := Ranking.scored p.files }

/-- The project with the hotness of its files and an issue for each of the `topN` hottest, in
place of earlier ones. -/
def Project.withHotspots (p : Project) (topN : Nat) : Project :=
  let p := p.scored.clear .hotspot
  p.recordAll (((Ranking.hottest p.files.values).take topN).map Ranking.hotspot)

end RepoAudit
