import RepoAudit.Proofs.Audit.Invariant
import RepoAudit.Proofs.Files.Walk

/-!
# Audits run again

A full audit leaves nothing of an earlier one: `run_again` says that it makes the same of a project
that was audited before, with whatever files, commits and settings, as of a new one. Apart from
issues and links each stage overwrites all that it reads; issues and links are cleared kind by kind
until none are left, and then recorded in one order.
-/

namespace RepoAudit

open Project

namespace Project

/-! ### What an audit finds out -/

/-- The project with what the stages after the first one find out about its files. -/
def surveyed (p : Project) (s : Audit.Subject) : Project :=
  (((p.withComplexity s.place s.measured).counted s.place).withHistory s.config s.entries).scored

/-- The project with the issues that follow from what was found out. -/
def reported (p : Project) (s : Audit.Subject) : Project :=
  (p.recordAll (p.markerIssues s.place)).recordAll (p.hotspots s.config.hotspots.topN)

section Later

variable {p : Project}

theorem Linked.clear_recordAll (linked : p.Linked) {q : Project} {kind other : IssueKind}
    {issues : List Issue} (own : ∀ i ∈ issues, q.IsOf kind i) (apart : other ≠ kind) :
    (p.recordAll issues).clear other = (p.clear other).recordAll issues := by
  refine linked.issues.clear_recordAll (fun i member => (own i member).identified) ?_
  intro i member same
  exact apart (same.symm.trans (own i member).1)

theorem Audited.clear_surveyed (audited : p.Audited) (s : Audit.Subject) :
    (((p.surveyed s).clear .todo).clear .dirtyWorktree).clear .hotspot =
      (p.surveyed s).withoutIssues := by
  have linked : (p.surveyed s).Linked := (((audited.toLinked.withComplexity s.place
    s.measured).counted s.place).withHistory s.config s.entries).scored
  have issues : (p.surveyed s).issues = p.issues := by
    rw [surveyed, ignoresIssues_scored.issues, (ignoresIssues_withHistory _ _).issues]
    rfl
  refine linked.foldl_clear Audit.kinds fun id i stored => ?_
  rw [issues] at stored
  exact audited.kinds id i stored

/-- What histories and hotspots say of files does not change which files have markers. -/
theorem markerIssues_surveyed (p : Project) (s : Audit.Subject) :
    (p.surveyed s).markerIssues s.place =
      ((p.withComplexity s.place s.measured).counted s.place).markerIssues s.place := by
  let h := ((p.withComplexity s.place s.measured).counted s.place).withHistory s.config s.entries
  have ranked : h.scored.markerIssues s.place = h.markerIssues s.place :=
    markerIssues_congr (g := fun _ f => { f with hotness := Ranking.hotness h.files.values f })
      s.place rfl fun _ _ => ⟨rfl, rfl, rfl⟩
  exact ranked.trans <| markerIssues_congr (g := History.credit _ _) s.place
    (congrArg files (withHistory_eq ..)) fun _ _ => ⟨rfl, rfl, rfl⟩

/-- After the first stage, an audit does the same as if it first found out everything, then dropped
all issues and links, and then recorded new ones. -/
theorem Audited.later_stages (audited : p.Audited) (s : Audit.Subject) :
    (Audit.withCommits ((p.withComplexity s.place s.measured).withMarkers s.place) s).withHotspots
      s.config.hotspots.topN = (p.surveyed s).withoutIssues.reported s := by
  let c := (p.withComplexity s.place s.measured).counted s.place
  let h := c.withHistory s.config s.entries
  let markers := c.markerIssues s.place
  have own : ∀ i ∈ markers, c.IsOf .todo i := isOf_markerIssues s.place
  have history := ignoresIssues_withHistory s.config s.entries
  have linked : h.Linked := ((audited.toLinked.withComplexity s.place s.measured).counted
    s.place).withHistory s.config s.entries
  have commits : Audit.withCommits ((p.withComplexity s.place s.measured).withMarkers s.place) s =
      ((h.clear .todo).clear .dirtyWorktree).recordAll markers := by
    rw [Audit.withCommits, withMarkers_eq, Project.replaceAll, history.recordAll, history.clear]
    exact (linked.clear .todo).clear_recordAll own (by decide)
  have scored : (((h.clear .todo).clear .dirtyWorktree).recordAll markers).scored =
      ((h.scored.clear .todo).clear .dirtyWorktree).recordAll markers := by
    rw [ignoresIssues_scored.recordAll, ignoresIssues_scored.clear, ignoresIssues_scored.clear]
  have hotspots (topN : Nat) :
      (((h.scored.clear .todo).clear .dirtyWorktree).recordAll markers).hotspots topN =
        h.scored.withoutIssues.hotspots topN := by
    rw [← hotspots_withoutIssues, withoutIssues_recordAll, withoutIssues_clear,
      withoutIssues_clear]
  -- the markers are recorded before the hotspots are cleared, which makes no difference
  have cleared : (((h.scored.clear .todo).clear .dirtyWorktree).recordAll markers).clear .hotspot =
      h.scored.withoutIssues.recordAll markers := by
    have audited_clear : ((h.scored.clear .todo).clear .dirtyWorktree).clear .hotspot =
      h.scored.withoutIssues := audited.clear_surveyed s
    rw [((linked.scored.clear .todo).clear .dirtyWorktree).clear_recordAll own (by decide),
      audited_clear]
  rw [commits, withHotspots_eq, Project.replaceAll, scored, hotspots, cleared, reported,
    markerIssues_withoutIssues, markerIssues_surveyed]
  rfl

end Later

/-! ### What is found out anew -/

/-- What the source of a file tells of it. -/
def File.basis (f : File) : File where
  id := f.id
  path := f.path
  language := f.language
  loc := f.loc
  sizeBytes := f.sizeBytes
  checksum := f.checksum

/-- A file without what histories, hotspots and issues say of it. -/
def File.bare (f : File) : File := { f.withoutHistory with hotness := 0.0, issues := [] }

section Renewed

variable {f : File} {place : Option Files.Place}

theorem File.Sound.measure_basis (sound : f.Sound) (measured : Audit.Measured)
    (readable : Audit.textOf? place f ≠ none) :
    (Audit.measure place measured f).bare =
      { Audit.measure place measured f.basis with todoCount := f.todoCount } := by
  have same : Audit.complexityOf? place measured f.basis =
    Audit.complexityOf? place measured f := rfl
  rw [Audit.measure_eq, Audit.measure_eq, same]
  cases found : Audit.complexityOf? place measured f with
  | some c => rfl
  | none =>
    -- the text is there, so the language calls for no measure, and there was none before
    have unmeasured := (Audit.complexityOf?_eq_none.mp found).resolve_right readable
    obtain ⟨complexity, maintainability⟩ := sound.unmeasured unmeasured
    simp only [File.bare, File.withoutHistory, File.basis, complexity, maintainability]

theorem keeps_measure (place : Option Files.Place) (measured : Audit.Measured) (f : File) :
    let g := Audit.measure place measured f
    g.path = f.path ∧ g.language = f.language ∧ g.todoCount = f.todoCount := by
  rw [Audit.measure_eq]
  cases Audit.complexityOf? place measured f <;> exact ⟨rfl, rfl, rfl⟩

theorem File.Sound.renewed (sound : f.Sound) (measured : Audit.Measured)
    (readable : Audit.textOf? place f ≠ none) :
    (Audit.countMarkers place (Audit.measure place measured f)).bare =
      Audit.countMarkers place (Audit.measure place measured f.basis) := by
  have measure := sound.measure_basis measured readable
  obtain ⟨path, language, -⟩ := keeps_measure place measured f
  obtain ⟨path', language', count⟩ := keeps_measure place measured f.basis
  rw [Audit.countMarkers, Audit.countMarkers, Audit.markers?_congr place path language,
    Audit.markers?_congr (f := f) place path' language']
  cases found : Audit.markers? place f with
  | some ms => exact congrArg (fun f => { f with todoCount := ms.length }) measure
  | none =>
    have unsearched := (Audit.markers?_eq_none.mp found).resolve_right readable
    have uncounted : f.todoCount = (Audit.measure place measured f.basis).todoCount :=
      (sound.unsearched unsearched).trans count.symm
    rw [uncounted] at measure
    exact measure

end Renewed

/-- A project with what its sources tell. -/
def skeleton (p : Project) : Project :=
  { p with
    files := p.files.mapValues fun _ f => f.basis
    commits := ∅
    contributors := ∅
    issues := ∅
    coupling := ∅ }

/-- A project without what histories, hotspots and issues say. -/
def bare (p : Project) : Project :=
  { p with
    files := p.files.mapValues fun _ f => f.bare
    commits := ∅
    contributors := ∅
    issues := ∅
    coupling := ∅ }

theorem scored_unranked (p : Project) :
    { p with files := p.files.mapValues fun _ f => { f with hotness := 0.0 } }.scored =
      p.scored := by
  have hotness := hotness_mapValues (g := fun _ f => { f with hotness := 0.0 }) p.files
    fun _ _ => ⟨rfl, rfl, rfl⟩
  simp only [scored, Ranking.scored, hotness, SortedMap.mapValues_mapValues]
  rfl

/-- Histories and hotspots do not depend on what earlier ones said. -/
theorem scored_bare (p : Project) (config : Config) (entries : List History.Entry) :
    (p.bare.withHistory config entries).scored =
      (p.withHistory config entries).scored.withoutIssues := by
  let q := p.withoutIssues.withoutHistory
  have bare : p.bare =
      { q with files := q.files.mapValues fun _ f => { f with hotness := 0.0 } } := by
    simp only [q, withoutIssues, relinked, withoutHistory, SortedMap.mapValues_mapValues]
    rfl
  have unranked := withHistory_mapFiles (g := fun _ f => { f with hotness := 0.0 }) q config entries
    (fun _ _ => ⟨rfl, rfl, rfl⟩) fun _ _ _ _ => rfl
  rw [bare, unranked, scored_unranked, withHistory_withoutHistory,
    (ignoresIssues_withHistory config entries).withoutIssues, ignoresIssues_scored.withoutIssues]

theorem Audited.surveyed_skeleton {p : Project} (audited : p.Audited) (s : Audit.Subject)
    (readable : ∀ id f, p.files.get? id = some f → Audit.textOf? s.place f ≠ none) :
    p.skeleton.surveyed s = (p.surveyed s).withoutIssues := by
  have renewed : (p.skeleton.withComplexity s.place s.measured).counted s.place =
      ((p.withComplexity s.place s.measured).counted s.place).bare := by
    have files : p.files.mapValues
        (fun _ f => Audit.countMarkers s.place (Audit.measure s.place s.measured f.basis)) =
        p.files.mapValues fun _ f =>
          (Audit.countMarkers s.place (Audit.measure s.place s.measured f)).bare :=
      SortedMap.mapValues_congr fun id f stored =>
        ((audited.sound id f stored).renewed s.measured (readable id f stored)).symm
    simp only [Project.counted, withComplexity, skeleton, bare, SortedMap.mapValues_mapValues,
      files]
  rw [surveyed, renewed, scored_bare, surveyed]

/-! ### Sources read again -/

theorem modules_basis (files : List File) :
    Audit.modules (files.map File.basis) = Audit.modules files := by
  rw [Audit.modules, List.foldl_map]
  rfl

section Sources

variable {p : Project} (linked : p.Linked) (hash : Digest.Algorithm) (sources : List Audit.Source)
include linked

theorem Linked.basis_describe (t : Audit.TextFile) :
    (t.describe hash (p.files.get? (fileId t.path))).basis = (t.describe hash none).basis := by
  obtain ⟨id, path⟩ := linked.describe hash t
  rw [File.basis, id, path]
  rfl

theorem Linked.files_basis :
    (p.withSources hash sources).files.mapValues (fun _ f => f.basis) =
      (p.header.withSources hash sources).files.mapValues fun _ f => f.basis := by
  simp only [Project.withSources, SortedMap.mapValues_ofList, List.map_map, Function.comp_def,
    linked.basis_describe]
  rfl

theorem Linked.values_basis :
    (p.withSources hash sources).files.values.map File.basis =
      (p.header.withSources hash sources).files.values.map File.basis := by
  have same := congrArg SortedMap.values (linked.files_basis hash sources)
  rw [SortedMap.values_mapValues, SortedMap.values_mapValues] at same
  rw [SortedMap.values, SortedMap.values, List.map_map, List.map_map]
  exact same

theorem Linked.modules_withSources :
    (p.withSources hash sources).modules = (p.header.withSources hash sources).modules := by
  calc (p.withSources hash sources).modules
      = Audit.modules ((p.withSources hash sources).files.values.map File.basis) :=
        (modules_basis _).symm
    _ = Audit.modules ((p.header.withSources hash sources).files.values.map File.basis) := by
        rw [linked.values_basis]
    _ = (p.header.withSources hash sources).modules := modules_basis _

theorem Linked.dependencies_withSources :
    (p.withSources hash sources).dependencies =
      (p.header.withSources hash sources).dependencies := by
  have paths : (p.withSources hash sources).files.values.map (·.path) =
      (p.header.withSources hash sources).files.values.map (·.path) := by
    have same := congrArg (List.map File.path) (linked.values_basis hash sources)
    rw [List.map_map, List.map_map] at same
    exact same
  have imports (q : Project) : (q.withSources hash sources).dependencies = .ofList
      ((sources.filterMap Audit.TextFile.ofSource?).flatMap fun t =>
        t.dependencies (.ofList ((q.withSources hash sources).files.values.map (·.path)))) := rfl
  rw [imports, paths, ← imports]

theorem Linked.skeleton_withSources :
    (p.withSources hash sources).skeleton = (p.header.withSources hash sources).skeleton := by
  calc (p.withSources hash sources).skeleton
      = { p.header with
          files := (p.withSources hash sources).files.mapValues fun _ f => f.basis
          modules := (p.withSources hash sources).modules
          dependencies := (p.withSources hash sources).dependencies } := rfl
    _ = { p.header with
          files := (p.header.withSources hash sources).files.mapValues fun _ f => f.basis
          modules := (p.header.withSources hash sources).modules
          dependencies := (p.header.withSources hash sources).dependencies } := by
        rw [linked.files_basis, linked.modules_withSources, linked.dependencies_withSources]

end Sources

end Project

namespace Audit

/-- The root of an audit is a directory, and every file that is selected can be read at its path. -/
def Subject.Readable (s : Subject) : Prop :=
  ∃ place, s.place = some place ∧ place.node.isDirectory = true ∧
    ∀ source ∈ select s.config place, (place.content? source.path).isSome = true

theorem Subject.Readable.of_plain {s : Subject} {place : Files.Place} (there : s.place = some place)
    (directory : place.node.isDirectory) (plain : place.node.isPlain) : s.Readable := by
  refine ⟨place, there, directory, fun source selected => ?_⟩
  rw [content?_of_mem_select directory plain selected, Option.isSome_some]

theorem run_full (p : Project) {s : Subject} {sources : List Source}
    (found : Audit.sources s.config s.root s.place = .ok sources) :
    run (Mode.full.stages true) s p =
      ⟨(withCommits (((p.withSources s.config.walk.hash sources).withComplexity s.place
        s.measured).withMarkers s.place) s).withHotspots s.config.hotspots.topN, []⟩ := by
  simp [run, Mode.stages, Outcome.next, Stage.run, found]

theorem run_audited {p : Project} (audited : p.Audited) {s : Subject} (readable : s.Readable) :
    run (Mode.full.stages true) s p = run (Mode.full.stages true) s p.header := by
  obtain ⟨place, at', directory, read⟩ := readable
  have found : Audit.sources s.config s.root s.place = .ok (select s.config place) := by
    rw [at', Audit.sources, if_pos directory]
  have same {q : Project} (audited : q.Audited) : run (Mode.full.stages true) s q =
      ⟨((q.withSources s.config.walk.hash (select s.config place)).skeleton.surveyed s).reported s,
        []⟩ := by
    have renewed := audited.withSources s.config.walk.hash (select s.config place)
    have texts : ∀ id f, (q.withSources s.config.walk.hash (select s.config place)).files.get? id =
        some f → textOf? s.place f ≠ none := by
      -- every file comes from a source that was selected, so its text is there
      intro id f stored
      obtain ⟨source, member, t, text, rfl, rfl⟩ := exists_text stored
      have path := (audited.toLinked.describe s.config.walk.hash t).2
      obtain ⟨content, there⟩ := Option.isSome_iff_exists.mp (read source member)
      rw [TextFile.eq_of_ofSource? text] at path
      rw [textOf?, TextFile.eq_of_ofSource? text, path, at', Option.bind_some, there]
      exact Option.some_ne_none _
    rw [run_full q found, renewed.later_stages, renewed.surveyed_skeleton s texts]
  rw [same audited, same p.audited_header, audited.toLinked.skeleton_withSources]

/-- Whatever was audited before, a full audit makes the same of the project as of a new one. -/
theorem run_again (name root : String) (first second : Subject) (readable : second.Readable) :
    run (Mode.full.stages true) second
        (run (Mode.full.stages true) first (.named name root)).project =
      run (Mode.full.stages true) second (.named name root) := by
  have new : (Project.named name root).Audited := audited_header (.named name root)
  obtain ⟨audited, header⟩ := new.run (Mode.full.stages true) first
  rw [run_audited audited readable, header]
  rfl

/-- A tree that is audited with its history, and what it has become later. -/
def demoBefore : Subject where
  root := "/demo"
  place := some ⟨["demo"], [], .directory [
    ("a.py", .file (Text.encoded "x = 1  # TODO: more\n".toList)),
    ("lib", .directory [("b.rs", .file (Text.encoded "fn main() \x7b\x7d\n".toList))])]⟩
  config := {}
  entries := Project.ledgerCommits

def demoAfter : Subject where
  root := "/demo"
  place := some ⟨["demo"], [], .directory [
    ("a.py", .file (Text.encoded "if x:\n    pass\n".toList))]⟩
  config := {}
  entries := Project.ledgerCommits.take 1

theorem run_again_demo : demoAfter.Readable ∧
    run (Mode.full.stages true) demoAfter
        (run (Mode.full.stages true) demoBefore (.named "demo" "/demo")).project =
      run (Mode.full.stages true) demoAfter (.named "demo" "/demo") := by
  have readable : demoAfter.Readable := .of_plain rfl rfl (by decide)
  exact ⟨readable, run_again "demo" "/demo" demoBefore demoAfter readable⟩

end Audit
end RepoAudit
