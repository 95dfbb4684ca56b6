import RepoAudit.Audit.Pipeline
import RepoAudit.Proofs.History.Order
import RepoAudit.Proofs.Project.Links

/-!
# Stages apart from issues

What the stages of an audit find out about files has nothing to do with issues. The stages that
record issues first find out something and then replace the issues of one kind.
-/

namespace RepoAudit

open Project

namespace Audit

/-- The kinds of issues that a full audit replaces. -/
def kinds : List IssueKind := [.todo, .dirtyWorktree, .hotspot]

/-! ### Single files -/

/-- The complexity of a file, if its language has one and its text can be read. -/
def complexityOf? (place : Option Files.Place) (measured : Measured) (f : File) :
    Option Float := do
  let language ← f.language
  let _ ← Source.decisionRule? language
  let text ← textOf? place f
  measured.complexities.get? f.path <|> Source.complexity? language text

theorem measure_eq (place : Option Files.Place) (measured : Measured) (f : File) :
    measure place measured f = match complexityOf? place measured f with
      | some c => { f with
          complexity := some c
          maintainability := some <|
            (measured.maintainabilities.get? f.path).getD (Source.maintainability c f.loc) }
      | none => f :=
  rfl

theorem complexityOf?_eq_none {place : Option Files.Place} {measured : Measured} {f : File} :
    complexityOf? place measured f = none ↔
      f.language.bind Source.decisionRule? = none ∨ textOf? place f = none := by
  rw [complexityOf?]
  cases f.language with
  | none => simp
  | some language =>
    cases rule : Source.decisionRule? language <;> cases textOf? place f <;>
      simp [Source.complexity?, rule]

theorem markers?_eq_none {place : Option Files.Place} {f : File} : markers? place f = none ↔
    f.language.filter (!unmarkedLanguages.contains ·) = none ∨ textOf? place f = none := by
  rw [markers?]
  cases f.language with
  | none => simp
  | some language =>
    cases searched : unmarkedLanguages.contains language <;> cases textOf? place f <;>
      simp [-List.contains_eq_mem, searched]

theorem markers?_congr (place : Option Files.Place) {f g : File} (path : g.path = f.path)
    (language : g.language = f.language) : markers? place g = markers? place f := by
  simp only [markers?, textOf?, path, language]

/-- A file with the number of its markers, if it is searched. -/
def countMarkers (place : Option Files.Place) (f : File) : File :=
  match markers? place f with
  | some ms => { f with todoCount := ms.length }
  | none => f

end Audit

namespace Project

/-- The project with the numbers of markers of its files. -/
def counted (p : Project) (place : Option Files.Place) : Project :=
  { p with files := p.files.mapValues fun _ f => Audit.countMarkers place f }

/-- The issues of files with markers. -/
def markerIssues (p : Project) (place : Option Files.Place) : List Issue :=
  p.files.values.filterMap fun f => (Audit.markers? place f).bind (Audit.markerIssue? f)

/-- The issues of the hottest files. -/
def hotspots (p : Project) (topN : Nat) : List Issue :=
  ((Ranking.hottest p.files.values).take topN).map Ranking.hotspot

/-! ### What does not depend on issues -/

theorem markerIssues_withoutIssues (p : Project) (place : Option Files.Place) :
    p.withoutIssues.markerIssues place = p.markerIssues place := by
  rw [markerIssues, values_withoutIssues, List.filterMap_map]
  rfl

/-- What files are ranked by does not depend on anything but hotness and path. -/
theorem hottest_map {g : File → File} (keeps : ∀ f, (g f).hotness = f.hotness ∧ (g f).path = f.path)
    (files : List File) : Ranking.hottest (files.map g) = (Ranking.hottest files).map g := by
  have sorted : Ranking.ranked (files.map g) = (Ranking.ranked files).map g := by
    refine (List.map_mergeSort fun a _ b _ => ?_).symm
    simp only [Ranking.hotterFirst, keeps]
  rw [Ranking.hottest, sorted, List.filter_map]
  simp only [Ranking.hottest, Function.comp_def, keeps]

theorem hotspots_withoutIssues (p : Project) (topN : Nat) :
    p.withoutIssues.hotspots topN = p.hotspots topN := by
  rw [hotspots, values_withoutIssues, hottest_map (g := File.withoutLinks) fun _ => ⟨rfl, rfl⟩,
    ← List.map_take, List.map_map]
  rfl

/-- A step that does the same whatever the issues and links of a project are. -/
def IgnoresIssues (stage : Project → Project) : Prop :=
  ∀ p issues links, stage (p.relinked issues links) = (stage p).relinked issues links

section

variable {stage : Project → Project} (ignores : IgnoresIssues stage)
include ignores

theorem IgnoresIssues.withoutIssues (p : Project) :
    stage p.withoutIssues = (stage p).withoutIssues :=
  ignores p _ _

theorem IgnoresIssues.issues (p : Project) : (stage p).issues = p.issues := by
  calc (stage p).issues
      = (stage (p.relinked p.issues fun _ old => old)).issues := by rw [relinked_self]
    _ = ((stage p).relinked p.issues fun _ old => old).issues := by rw [ignores]
    _ = p.issues := rfl

theorem IgnoresIssues.clear (p : Project) (kind : IssueKind) :
    stage (p.clear kind) = (stage p).clear kind := by
  have ids : (stage p).idsOf kind = p.idsOf kind := by rw [idsOf, idsOf, ignores.issues]
  rw [clear_eq, ignores, clear_eq, ids, ignores.issues]

theorem IgnoresIssues.recordAll (p : Project) (issues : List Issue) :
    stage (p.recordAll issues) = (stage p).recordAll issues := by
  induction issues generalizing p with
  | nil => rfl
  | cons first rest ih =>
    have step : stage (p.record first) = (stage p).record first := by
      rw [record_eq, ignores, record_eq, ignores.issues]
    exact (ih (p.record first)).trans (congrArg (Project.recordAll · rest) step)

end

/-! ### The steps of a full audit -/

theorem ignoresIssues_counted (place : Option Files.Place) :
    IgnoresIssues (·.counted place) := by
  intro p issues links
  have apart (f : File) (links : List String → List String) :
      Audit.countMarkers place (f.relink links) = (Audit.countMarkers place f).relink links := by
    have same := Audit.markers?_congr place (f := f) (g := f.relink links) rfl rfl
    rw [Audit.countMarkers, Audit.countMarkers, same]
    cases Audit.markers? place f <;> rfl
  simp only [counted, relinked, SortedMap.mapValues_mapValues, apart]

/-- A history commutes with a change to what it neither reads nor writes. -/
theorem withHistory_mapFiles {g : String → File → File} (p : Project) (config : Config)
    (entries : List History.Entry)
    (keeps : ∀ id f, (g id f).id = f.id ∧ (g id f).path = f.path ∧ (g id f).owner = f.owner)
    (apart : ∀ threshold touches id f, History.credit threshold touches id (g id f) =
      g id (History.credit threshold touches id f)) :
    { p with files := p.files.mapValues g }.withHistory config entries =
      { p.withHistory config entries with
        files := (p.withHistory config entries).files.mapValues g } := by
  have counts : { p with files := p.files.mapValues g }.counts config = p.counts config := by
    funext path
    have paths : (p.files.mapValues g).values.map (·.path) = p.files.values.map (·.path) :=
      SortedMap.map_values_mapValues fun id f => (keeps id f).2.1
    have found := congrArg (List.any · (· == path)) paths
    rw [List.any_map, List.any_map] at found
    exact congrArg (· && !config.exclude.excludes path) found
  have files : (p.files.mapValues g).mapValues
      (History.credit config.history.ownershipThreshold (p.touches config entries)) =
      (p.files.mapValues (History.credit config.history.ownershipThreshold
        (p.touches config entries))).mapValues g := by
    simp only [SortedMap.mapValues_mapValues, apart]
  have owned (files : SortedMap String File) (people : SortedMap String Person) :
      History.withOwned (files.mapValues g).values people =
        History.withOwned files.values people := by
    have own (person : String) : ((files.mapValues g).values.filter
        (·.owner == some person)).map (·.id) =
          (files.values.filter (·.owner == some person)).map (·.id) := by
      rw [SortedMap.values_mapValues, SortedMap.values, List.filter_map, List.filter_map,
        List.map_map, List.map_map]
      simp only [Function.comp_def, keeps]
    simp only [History.withOwned, own]
  rw [withHistory_eq, withHistory_eq, touches, counts, ← touches]
  dsimp only
  rw [files, owned]

theorem ignoresIssues_withHistory (config : Config) (entries : List History.Entry) :
    IgnoresIssues (·.withHistory config entries) := by
  intro p issues links
  have relinked := withHistory_mapFiles (g := fun id f => f.relink (links id)) p config entries
    (fun _ _ => ⟨rfl, rfl, rfl⟩) fun _ _ _ _ => rfl
  exact congrArg (fun q => { q with issues }) relinked

theorem hotness_mapValues {g : String → File → File} (files : SortedMap String File)
    (keeps : ∀ id f, (g id f).churn = f.churn ∧ (g id f).loc = f.loc ∧
      (g id f).complexity = f.complexity) :
    Ranking.hotness (files.mapValues g).values = Ranking.hotness files.values := by
  have churn : (files.mapValues g).values.map (fun f => Float.ofNat f.churn) =
      files.values.map fun f => Float.ofNat f.churn :=
    SortedMap.map_values_mapValues fun id f => congrArg Float.ofNat (keeps id f).1
  have loc : (files.mapValues g).values.map (fun f => Float.ofNat f.loc) =
      files.values.map fun f => Float.ofNat f.loc :=
    SortedMap.map_values_mapValues fun id f => congrArg Float.ofNat (keeps id f).2.1
  have complexity : (files.mapValues g).values.map Ranking.File.complexityOrZero =
      files.values.map Ranking.File.complexityOrZero :=
    SortedMap.map_values_mapValues fun id f => congrArg (Option.getD · 0.0) (keeps id f).2.2
  funext f
  rw [Ranking.hotness, Ranking.hotness, churn, loc, complexity]

theorem ignoresIssues_scored : IgnoresIssues scored := by
  intro p issues links
  have hotness := hotness_mapValues (g := fun id f => f.relink (links id)) p.files
    fun _ _ => ⟨rfl, rfl, rfl⟩
  simp only [scored, relinked, Ranking.scored, hotness, SortedMap.mapValues_mapValues]
  rfl

/-- The issues of files with markers depend on what identifies the files and on their languages. -/
theorem markerIssues_congr {p q : Project} {g : String → File → File} (place : Option Files.Place)
    (files : q.files = p.files.mapValues g)
    (keeps : ∀ id f, (g id f).id = f.id ∧ (g id f).path = f.path ∧ (g id f).language = f.language) :
    q.markerIssues place = p.markerIssues place := by
  rw [markerIssues, files]
  refine SortedMap.filterMap_values_mapValues fun id f => ?_
  obtain ⟨sameId, samePath, sameLanguage⟩ := keeps id f
  have found := Audit.markers?_congr place samePath sameLanguage
  have issue : Audit.markerIssue? (g id f) = Audit.markerIssue? f := by
    funext ms
    cases ms <;> simp only [Audit.markerIssue?, sameId, samePath]
  rw [found, issue]

theorem markerIssues_counted (p : Project) (place : Option Files.Place) :
    (p.counted place).markerIssues place = p.markerIssues place := by
  refine markerIssues_congr (g := fun _ => Audit.countMarkers place) place rfl fun _ f => ?_
  rw [Audit.countMarkers]
  cases Audit.markers? place f <;> exact ⟨rfl, rfl, rfl⟩

theorem withMarkers_eq (p : Project) (place : Option Files.Place) :
    p.withMarkers place =
      (p.counted place).replaceAll .todo ((p.counted place).markerIssues place) := by
  have issues : (p.clear .todo).markerIssues place = p.markerIssues place := by
    rw [← markerIssues_withoutIssues, withoutIssues_clear, markerIssues_withoutIssues]
  have found : ((p.clear .todo).files.values.map fun f => (f, Audit.markers? place f)).filterMap
      (fun found => found.2.bind (Audit.markerIssue? found.1)) =
        (p.clear .todo).markerIssues place :=
    List.filterMap_map ..
  -- the stage clears first and counts then
  rw [replaceAll, ← (ignoresIssues_counted place).clear, markerIssues_counted, ← issues, ← found]
  rfl

theorem withHotspots_eq (p : Project) (topN : Nat) :
    p.withHotspots topN = p.scored.replaceAll .hotspot (p.scored.hotspots topN) := by
  have issues : (p.scored.clear .hotspot).hotspots topN = p.scored.hotspots topN := by
    rw [← hotspots_withoutIssues, withoutIssues_clear, hotspots_withoutIssues]
  rw [replaceAll, ← issues]
  rfl

end Project
end RepoAudit
