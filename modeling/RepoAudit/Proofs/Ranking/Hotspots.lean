import RepoAudit.Proofs.Audit.Invariant

/-!
# Hotspots recorded anew

The hottest files get an issue each, in place of the issues that earlier hotspots got. `renewed_hotspots`
tells which issues and links there are afterwards, and that nothing else is touched.
-/

namespace RepoAudit.Project

open Ranking

/-- The files that come first among those that are hot. -/
def hottestFiles (p : Project) (topN : Nat) : List File := (hottest p.files.values).take topN

/-- Files and issues are stored under their identifiers, and files link to issues that there are. -/
structure LinksExist (p : Project) : Prop where
  files : ∀ id f, p.files.get? id = some f → f.id = id ∧ f.id = fileId f.path
  issues : p.Identified
  known : ∀ id f, p.files.get? id = some f → ∀ link ∈ f.issues, ∃ i, p.issues.get? link = some i

/-- What a project says of hotspots after they have been recorded, and what it says of all else. -/
structure HotspotsRenewed (p : Project) (topN : Nat) (q : Project) : Prop where
  /-- There is one hotspot for each of the hottest files, and no other. -/
  hotspots : ∀ id i, q.issues.get? id = some i ∧ i.kind = .hotspot ↔
    ∃ f ∈ q.hottestFiles topN, i = hotspot f ∧ id = i.id
  told : ∀ f ∈ q.hottestFiles topN, (hotspot f).file = some f.id ∧
    (hotspot f).score = some f.hotness ∧ (hotspot f).severity = severityOf f.hotness
  apart : ((q.hottestFiles topN).map (·.id)).Nodup ∧
    ((q.hottestFiles topN).map fun f => (hotspot f).id).Nodup
  /-- Each of them is linked once from its file. -/
  once : ∀ f ∈ q.hottestFiles topN, f.issues.count (hotspot f).id = 1
  /-- There are no other links to what is a hotspot, or was one. -/
  noOthers : ∀ id g, q.files.get? id = some g → ∀ link ∈ g.issues,
    (∃ i, (p.issues.get? link = some i ∨ q.issues.get? link = some i) ∧ i.kind = .hotspot) →
      g ∈ q.hottestFiles topN ∧ link = (hotspot g).id
  /-- All other issues, and the links to them, are as they were. -/
  others : ∀ id i, i.kind ≠ .hotspot → (q.issues.get? id = some i ↔ p.issues.get? id = some i)
  links : ∀ id f g, p.files.get? id = some f → q.files.get? id = some g →
    g.issues = f.issues.filter (!(p.idsOf .hotspot).contains ·) ++
      if id ∈ (q.hottestFiles topN).map (·.id) then [(hotspot g).id] else []
  /-- Files keep what is neither their hotness nor their links, and so does the project. -/
  files : ∀ id f, p.files.get? id = some f → ∃ g, q.files.get? id = some g ∧
    g = { f with hotness := hotness p.files.values f, issues := g.issues }
  sameFiles : q.files.keys = p.files.keys
  rest : q = { p with files := q.files, issues := q.issues }

section

variable {p : Project} {topN : Nat}

/-! ### The hottest files -/

theorem mem_hottestFiles {f : File} (hot : f ∈ p.hottestFiles topN) :
    ∃ id, p.files.get? id = some f := by
  have ranked := (List.mem_filter.mp (List.mem_of_mem_take hot)).1
  exact SortedMap.mem_values.mp ((List.mergeSort_perm _ _).mem_iff.mp ranked)

theorem nodup_hottestFiles (named : ∀ id f, p.files.get? id = some f → f.id = id) :
    ((p.hottestFiles topN).map (·.id)).Nodup := by
  have ranked : ((ranked p.files.values).map (·.id)).Nodup :=
    ((List.mergeSort_perm _ _).map _).nodup_iff.mpr (SortedMap.nodup_values named)
  exact ranked.sublist (((List.take_sublist _ _).trans List.filter_sublist).map _)

theorem eq_of_hot (named : ∀ id f, p.files.get? id = some f → f.id = id) {id : String} {f g : File}
    (stored : p.files.get? id = some f) (hot : g ∈ p.hottestFiles topN) (same : g.id = id) :
    g = f := by
  obtain ⟨id', held⟩ := mem_hottestFiles hot
  rw [← named id' g held, same, stored] at held
  exact (Option.some.inj held).symm

theorem mem_ids_hottestFiles (named : ∀ id f, p.files.get? id = some f → f.id = id) {id : String}
    {f : File} (stored : p.files.get? id = some f) :
    id ∈ (p.hottestFiles topN).map (·.id) ↔ f ∈ p.hottestFiles topN := by
  constructor
  · intro among
    obtain ⟨g, hot, same⟩ := List.mem_map.mp among
    exact eq_of_hot named stored hot same ▸ hot
  · exact fun hot => List.mem_map.mpr ⟨f, hot, named id f stored⟩

theorem LinksExist.named (exist : p.LinksExist) (id : String) (f : File)
    (stored : p.files.get? id = some f) : f.id = id :=
  (exist.files id f stored).1

/-- Files at different paths have hotspots with different identifiers. -/
theorem LinksExist.nodup_hotspots (exist : p.LinksExist) :
    ((p.hottestFiles topN).map fun f => (hotspot f).id).Nodup := by
  have distinct : ((p.hottestFiles topN).map (·.id)).Nodup := nodup_hottestFiles exist.named
  refine List.pairwise_map.mpr ((List.pairwise_map.mp distinct).imp_of_mem ?_)
  intro f g hot hot' different same
  obtain ⟨id, stored⟩ := mem_hottestFiles hot
  obtain ⟨id', stored'⟩ := mem_hottestFiles hot'
  refine different ?_
  rw [(exist.files id f stored).2, (exist.files id' g stored').2, key_of_issueId same]

/-! ### Issues -/

/-- Of issues with different identifiers the last with an identifier is the one that has it. -/
theorem find?_reverse_iff {issues : List Issue} (distinct : (issues.map (·.id)).Nodup) {id : String}
    {i : Issue} : issues.reverse.find? (·.id = id) = some i ↔ i ∈ issues ∧ i.id = id := by
  constructor
  · intro found
    exact ⟨List.mem_reverse.mp (List.mem_of_find?_eq_some found), by simpa using List.find?_some found⟩
  · rintro ⟨member, same⟩
    have found : (issues.reverse.find? (·.id = id)).isSome := by
      simpa [List.find?_isSome] using ⟨i, member, same⟩
    obtain ⟨j, found⟩ := Option.isSome_iff_exists.mp found
    have among : j ∈ issues := List.mem_reverse.mp (List.mem_of_find?_eq_some found)
    have same' : j.id = i.id := by
      rw [same]
      simpa using List.find?_some found
    rw [found, List.inj_on_of_nodup_map distinct among member same']

theorem LinksExist.get?_hotspot_iff (exist : p.LinksExist) {id : String} {i : Issue} :
    (p.replaceAll .hotspot (p.hotspots topN)).issues.get? id = some i ∧ i.kind = .hotspot ↔
      ∃ f ∈ p.hottestFiles topN, i = hotspot f ∧ id = i.id := by
  have distinct : ((p.hotspots topN).map (·.id)).Nodup := by
    rw [hotspots, List.map_map]
    exact exist.nodup_hotspots
  rw [get?_replaceAll_ofKind exist.issues fun i member => (isOf_hotspots topN i member).1,
    find?_reverse_iff distinct, hotspots, List.mem_map]
  constructor
  · rintro ⟨⟨f, hot, rfl⟩, rfl⟩
    exact ⟨f, hot, rfl, rfl⟩
  · rintro ⟨f, hot, rfl, rfl⟩
    exact ⟨⟨f, hot, rfl⟩, rfl⟩

theorem Identified.get?_other_iff (identified : p.Identified) {id : String} {i : Issue}
    (other : i.kind ≠ .hotspot) :
    (p.replaceAll .hotspot (p.hotspots topN)).issues.get? id = some i ↔
      p.issues.get? id = some i := by
  rw [replaceAll, issues_recordAll, Option.or_eq_some_iff, identified.get?_clear]
  constructor
  · rintro (found | ⟨-, stored, -⟩)
    · have member := List.mem_reverse.mp (List.mem_of_find?_eq_some found)
      exact absurd (isOf_hotspots topN i member).1 other
    · exact stored
  · intro stored
    refine .inr ⟨List.find?_eq_none.mpr fun j member same => ?_, stored, other⟩
    obtain ⟨f, -, rfl⟩ := List.mem_map.mp (List.mem_reverse.mp member)
    obtain ⟨own, key, shape⟩ := identified id i stored
    have shared : issueId i.kind key = issueId .hotspot f.path := by
      rw [← shape, own]
      exact (of_decide_eq_true same).symm
    exact other (kind_of_issueId shared)

/-! ### Links -/

/-- A file that is among the hottest has one hotspot, and any other file has none. -/
theorem LinksExist.idsAbout_hotspots (exist : p.LinksExist) {id : String}
    {f : File} (stored : p.files.get? id = some f) : idsAbout (p.hotspots topN) id =
      if id ∈ (p.hottestFiles topN).map (·.id) then [(hotspot f).id] else [] := by
  have own : idsAbout (p.hotspots topN) id =
      ((p.hottestFiles topN).filter (·.id = id)).map fun f => (hotspot f).id := by
    rw [idsAbout, hotspots, ← hottestFiles, List.filter_map, List.map_map]
    simp only [hotspot, Function.comp_def, Option.some.injEq]
  have same (g : File) (member : g ∈ (p.hottestFiles topN).filter (·.id = id)) : g = f := by
    obtain ⟨hot, about⟩ := List.mem_filter.mp member
    exact eq_of_hot exist.named stored hot (of_decide_eq_true about)
  have number : ((p.hottestFiles topN).filter (·.id = id)).length =
      ((p.hottestFiles topN).map (·.id)).count id := by
    rw [List.count, List.countP_map, List.countP_eq_length_filter]
    simp only [Function.comp_def, beq_eq_decide]
  rw [own, List.eq_replicate_iff.mpr ⟨number, same⟩, List.map_replicate]
  split
  · rename_i hot
    rw [List.count_eq_one_of_mem (nodup_hottestFiles exist.named) hot]
    rfl
  · rename_i cold
    rw [List.count_eq_zero.mpr cold]
    rfl

/-- What is left when the links to hotspots are removed are no links to hotspots. -/
theorem LinksExist.not_mem_kept (exist : p.LinksExist) {id : String} {f : File}
    (stored : p.files.get? id = some f) (key : String) :
    issueId .hotspot key ∉ f.issues.filter (!(p.idsOf .hotspot).contains ·) := by
  intro kept
  obtain ⟨member, other⟩ := List.mem_filter.mp kept
  obtain ⟨i, held⟩ := exist.known id f stored _ member
  obtain ⟨same, key', shape⟩ := exist.issues _ i held
  have kinds : i.kind = .hotspot := kind_of_issueId (shape.symm.trans same)
  have cleared : issueId .hotspot key ∈ p.idsOf .hotspot :=
    exist.issues.mem_idsOf.mpr ⟨i, held, kinds⟩
  simp [SortedSet.contains_iff.mpr cleared] at other

/-- A file with the links that it has after hotspots have been recorded. -/
def renewed (p : Project) (topN : Nat) (f : File) : File :=
  { f with issues := linkAll (keptLinks p .hotspot f) (idsAbout (p.hotspots topN) f.id) }

/-- The link to a hotspot comes after all others. -/
theorem LinksExist.issues_renewed (exist : p.LinksExist) (topN : Nat) {id : String} {f : File}
    (stored : p.files.get? id = some f) : (p.renewed topN f).issues =
      f.issues.filter (!(p.idsOf .hotspot).contains ·) ++
        if id ∈ (p.hottestFiles topN).map (·.id) then [(hotspot f).id] else [] := by
  rw [renewed]
  dsimp only
  rw [exist.named id f stored, exist.idsAbout_hotspots stored]
  split
  · have new : (hotspot f).id ∉ keptLinks p .hotspot f := exist.not_mem_kept stored f.path
    rw [linkAll, List.foldl_cons, List.foldl_nil, link, if_neg (by simpa using new)]
    rfl
  · rw [linkAll, List.foldl_nil, List.append_nil]
    rfl

/-! ### A project with hotspots -/

theorem get?_scored {id : String} {f : File} : p.scored.files.get? id = some f ↔
    ∃ before, p.files.get? id = some before ∧
      f = { before with hotness := hotness p.files.values before } := by
  rw [scored, Ranking.scored, SortedMap.get?_mapValues, Option.map_eq_some_iff]
  simp only [eq_comm]

theorem LinksExist.scored (exist : p.LinksExist) : p.scored.LinksExist where
  files id f stored := by
    obtain ⟨before, held, rfl⟩ := get?_scored.mp stored
    exact exist.files id before held
  issues := exist.issues
  known id f stored := by
    obtain ⟨before, held, rfl⟩ := get?_scored.mp stored
    exact exist.known id before held

theorem LinksExist.files_withHotspots (exist : p.LinksExist) :
    (p.withHotspots topN).files = p.scored.files.mapValues fun _ => p.scored.renewed topN := by
  refine SortedMap.ext_get? fun id => ?_
  rw [withHotspots_eq, files_replaceAll, SortedMap.get?_mapValues]
  refine Option.map_congr fun f stored => ?_
  rw [renewed, exist.scored.named id f stored]

theorem LinksExist.hottestFiles_withHotspots (exist : p.LinksExist) (topN : Nat) :
    (p.withHotspots topN).hottestFiles topN =
      (p.scored.hottestFiles topN).map (p.scored.renewed topN) := by
  have values : (p.withHotspots topN).files.values =
      p.scored.files.values.map (p.scored.renewed topN) := by
    rw [exist.files_withHotspots, SortedMap.values_mapValues, SortedMap.values, List.map_map]
    rfl
  rw [hottestFiles, values, hottest_map (g := p.scored.renewed topN) fun _ => ⟨rfl, rfl⟩,
    ← List.map_take]
  rfl

/-- What a file is like after hotspots have been recorded. -/
theorem LinksExist.get?_withHotspots (exist : p.LinksExist) {id : String} {g : File}
    (stored : (p.withHotspots topN).files.get? id = some g) : ∃ f, p.files.get? id = some f ∧
      g = { f with hotness := hotness p.files.values f, issues := g.issues } ∧
      g.issues = f.issues.filter (!(p.idsOf .hotspot).contains ·) ++
        if id ∈ ((p.withHotspots topN).hottestFiles topN).map (·.id) then [(hotspot g).id]
        else [] := by
  rw [exist.files_withHotspots, SortedMap.get?_mapValues, Option.map_eq_some_iff] at stored
  obtain ⟨scored, held, rfl⟩ := stored
  have links := exist.scored.issues_renewed topN held
  obtain ⟨f, before, rfl⟩ := get?_scored.mp held
  refine ⟨f, before, rfl, ?_⟩
  rw [exist.hottestFiles_withHotspots, List.map_map]
  exact links

theorem LinksExist.identified_withHotspots (exist : p.LinksExist) :
    (p.withHotspots topN).Identified := by
  rw [withHotspots_eq]
  exact identified_replaceAll (p := p.scored) exist.issues fun i member =>
    (isOf_hotspots topN i member).identified

theorem LinksExist.named_withHotspots (exist : p.LinksExist) (id : String) (g : File)
    (stored : (p.withHotspots topN).files.get? id = some g) : g.id = id := by
  obtain ⟨f, held, same, -⟩ := exist.get?_withHotspots stored
  rw [same]
  exact exist.named id f held

end

/-- After hotspots have been recorded there are those of the hottest files, with their links, and all
else is as it was. -/
theorem renewed_hotspots (p : Project) (topN : Nat) (exist : p.LinksExist) :
    HotspotsRenewed p topN (p.withHotspots topN) := by
  have tops := exist.hottestFiles_withHotspots topN
  constructor
  case hotspots =>
    intro id i
    rw [tops, withHotspots_eq, exist.scored.get?_hotspot_iff]
    constructor
    · rintro ⟨f, hot, same⟩
      exact ⟨_, List.mem_map_of_mem hot, same⟩
    · rintro ⟨g, hot, same⟩
      obtain ⟨f, hot', rfl⟩ := List.mem_map.mp hot
      exact ⟨f, hot', same⟩
  case told => exact fun _ _ => ⟨rfl, rfl, rfl⟩
  case apart =>
    rw [tops, List.map_map, List.map_map]
    exact ⟨nodup_hottestFiles exist.scored.named, exist.scored.nodup_hotspots⟩
  case once =>
    intro g hot
    obtain ⟨id, stored⟩ := mem_hottestFiles hot
    obtain ⟨f, held, -, links⟩ := exist.get?_withHotspots stored
    have among : id ∈ ((p.withHotspots topN).hottestFiles topN).map (·.id) :=
      (mem_ids_hottestFiles exist.named_withHotspots stored).mpr hot
    have none : (f.issues.filter (!(p.idsOf .hotspot).contains ·)).count (hotspot g).id = 0 :=
      List.count_eq_zero.mpr (exist.not_mem_kept held g.path)
    rw [links, if_pos among, List.count_append, none, List.count_singleton_self]
  case noOthers =>
    rintro id g stored link member ⟨i, hotspot, kind⟩
    obtain ⟨f, held, -, links⟩ := exist.get?_withHotspots stored
    rw [links, List.mem_append] at member
    rcases member with kept | new
    · obtain ⟨same, key, shape⟩ :=
        hotspot.elim (exist.issues link i) (exist.identified_withHotspots link i)
      rw [kind, same] at shape
      exact absurd (shape ▸ kept) (exist.not_mem_kept held key)
    · split at new
      · rename_i among
        exact ⟨(mem_ids_hottestFiles exist.named_withHotspots stored).mp among,
          List.mem_singleton.mp new⟩
      · cases new
  case others =>
    intro id i other
    rw [withHotspots_eq]
    exact exist.scored.issues.get?_other_iff other
  case links =>
    intro id f g stored stored'
    obtain ⟨before, held, -, links⟩ := exist.get?_withHotspots stored'
    obtain rfl := Option.some.inj (stored.symm.trans held)
    exact links
  case files =>
    intro id f stored
    obtain ⟨g, renewed⟩ : ∃ g, (p.withHotspots topN).files.get? id = some g := by
      rw [exist.files_withHotspots, SortedMap.get?_mapValues,
        get?_scored.mpr ⟨f, stored, rfl⟩]
      exact ⟨_, rfl⟩
    obtain ⟨before, held, same, -⟩ := exist.get?_withHotspots renewed
    obtain rfl := Option.some.inj (stored.symm.trans held)
    exact ⟨g, renewed, same⟩
  case sameFiles =>
    rw [exist.files_withHotspots]
    exact List.map_map.trans List.map_map
  case rest =>
    rw [withHotspots_eq]
    exact replaceAll_eq ..

/-- A file that is hot now, and one that was a hotspot before and has markers. -/
def cooling : Project where
  files := .ofList ([{ File.ofPath "a.py" with churn := 8, loc := 20 },
    { File.ofPath "b.py" with
      loc := 10, issues := [issueId .hotspot "b.py", issueId .todo "b.py"] }].map
        fun f : File => (f.id, f))
  issues := .ofList ([
    { id := issueId .hotspot "b.py", kind := .hotspot, severity := .high, title := "Hotspot: b.py"
      description := "", file := some (fileId "b.py") },
    { id := issueId .todo "b.py", kind := .todo, severity := .medium, title := "1 TODO"
      description := "", file := some (fileId "b.py") }].map fun i : Issue => (i.id, i))

theorem linksExist_cooling : cooling.LinksExist := by
  have files : ∀ e ∈ cooling.files.entries, e.2.id = e.1 ∧ e.2.id = fileId e.2.path := by
    decide +kernel
  have issues : ∀ e ∈ cooling.issues.entries, e.2.id = e.1 ∧ e.2.id = issueId e.2.kind "b.py" := by
    decide +kernel
  have known : ∀ e ∈ cooling.files.entries, ∀ link ∈ e.2.issues,
      (cooling.issues.get? link).isSome = true := by
    decide +kernel
  constructor
  case files => exact fun id f stored => files (id, f) ((SortedMap.mem_entries _).mpr stored)
  case issues =>
    intro id i stored
    obtain ⟨same, shape⟩ := issues (id, i) ((SortedMap.mem_entries _).mpr stored)
    exact ⟨same, "b.py", shape⟩
  case known =>
    intro id f stored link member
    exact Option.isSome_iff_exists.mp
      (known (id, f) ((SortedMap.mem_entries _).mpr stored) link member)

theorem renewed_hotspots_of_cooling : cooling.LinksExist ∧
    HotspotsRenewed cooling 1 (cooling.withHotspots 1) ∧
    cooling.scored.files.values.map (fun f => decide (f.hotness > 0.0)) = [true, false] :=
  ⟨linksExist_cooling, renewed_hotspots cooling 1 linksExist_cooling, by decide +kernel⟩

end RepoAudit.Project
