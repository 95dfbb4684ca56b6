import RepoAudit.Proofs.Audit.Stages

/-!
# What every stage keeps

Each stage keeps issues and links in step. What it notes of a file goes with the language of the
file, so that a file of another language never has it; and an audit records issues of certain kinds
only. By induction this holds of whatever a sequence of stages makes of a new project.
-/

namespace RepoAudit

open Project

/-! ### Sources -/

theorem Audit.TextFile.eq_of_ofSource? {s : Source} {t : TextFile} (text : ofSource? s = some t) :
    t = ⟨s.path, s.content, Source.language? s.path⟩ := by
  rw [ofSource?] at text
  split at text
  · cases text
  · exact (Option.some.inj text).symm

namespace Project

section Sources

variable {p : Project} {hash : Digest.Algorithm} {sources : List Audit.Source}

theorem exists_text {id : String} {f : File}
    (stored : (p.withSources hash sources).files.get? id = some f) :
    ∃ s ∈ sources, ∃ t, Audit.TextFile.ofSource? s = some t ∧ id = fileId t.path ∧
      f = t.describe hash (p.files.get? id) := by
  have listed := SortedMap.mem_of_get?_ofList stored
  obtain ⟨t, member, same⟩ := List.mem_map.mp listed
  obtain ⟨rfl, rfl⟩ := Prod.mk.inj same
  obtain ⟨s, source, text⟩ := List.mem_filterMap.mp member
  exact ⟨s, source, t, text, rfl, rfl⟩

theorem Linked.describe (linked : p.Linked) (hash : Digest.Algorithm) (t : Audit.TextFile) :
    let f := t.describe hash (p.files.get? (fileId t.path))
    f.id = fileId t.path ∧ f.path = t.path := by
  cases before : p.files.get? (fileId t.path) with
  | none => exact ⟨rfl, rfl⟩
  | some f =>
    obtain ⟨sameId, ofPath⟩ := linked.files _ f before
    exact ⟨sameId, fileId_injective (ofPath.symm.trans sameId)⟩

theorem Linked.issues_withSources (linked : p.Linked) {id : String} {i : Issue} :
    (p.withSources hash sources).issues.get? id = some i ↔ p.issues.get? id = some i ∧
      ∀ key, i.file = some key → ∃ f, (p.withSources hash sources).files.get? key = some f := by
  have there {key : String} (contained : (p.withSources hash sources).files.contains key = true) :
      ∃ f, (p.withSources hash sources).files.get? key = some f :=
    Option.isSome_iff_exists.mp contained
  -- nothing is filtered if no file has gone, since then every issue is about a file that stays
  have whole : (p.withSources hash sources).issues =
      if p.files.keys.all (p.withSources hash sources).files.contains then p.issues
      else Audit.remaining (p.withSources hash sources).files p.issues := rfl
  rw [whole]
  split
  · rename_i complete
    refine ⟨fun stored => ⟨stored, fun key about => ?_⟩, And.left⟩
    obtain ⟨f, known⟩ := linked.known id i key stored about
    exact there (List.all_eq_true.mp complete key (SortedMap.mem_keys.mpr ⟨f, known⟩))
  · rw [Audit.remaining, SortedMap.get?_filter, Option.filter_eq_some_iff]
    refine and_congr_right fun _ => ?_
    cases about : i.file with
    | none => simp
    | some key => simp [SortedMap.contains, Option.isSome_iff_exists]

theorem Linked.withSources (linked : p.Linked) (hash : Digest.Algorithm)
    (sources : List Audit.Source) : (p.withSources hash sources).Linked := by
  refine ⟨fun id f stored => ?_, fun id i stored => ?_, fun id i key stored about => ?_,
    fun key f stored => ?_, fun key f stored id => ?_⟩
  · obtain ⟨_, _, t, _, rfl, rfl⟩ := exists_text stored
    obtain ⟨sameId, samePath⟩ := linked.describe hash t
    exact ⟨sameId, sameId.trans (congrArg fileId samePath.symm)⟩
  · exact linked.issues id i (linked.issues_withSources.mp stored).1
  · exact (linked.issues_withSources.mp stored).2 key about
  · obtain ⟨_, _, t, _, -, rfl⟩ := exists_text stored
    cases before : p.files.get? key with
    | none => exact List.nodup_nil
    | some f => exact linked.nodup key f before
  · -- the issues about a file that is still there are the same as before
    have own (i : Issue) (about : i.file = some key) :
        (p.withSources hash sources).issues.get? id = some i ↔ p.issues.get? id = some i := by
      refine linked.issues_withSources.trans (and_iff_left fun key' about' => ?_)
      obtain rfl := Option.some.inj (about.symm.trans about')
      exact ⟨f, stored⟩
    obtain ⟨_, _, t, _, -, rfl⟩ := exists_text stored
    have same : (∃ i, (p.withSources hash sources).issues.get? id = some i ∧ i.file = some key) ↔
        ∃ i, p.issues.get? id = some i ∧ i.file = some key :=
      exists_congr fun i => and_congr_left (own i)
    rw [same]
    cases before : p.files.get? key with
    | none =>
      refine iff_of_false List.not_mem_nil ?_
      rintro ⟨i, held, about⟩
      obtain ⟨f, known⟩ := linked.known id i key held about
      rw [before] at known
      cases known
    | some f => exact linked.links key f before id

end Sources

/-! ### Other stages and links -/

section Links

variable {p : Project}

theorem Linked.withComplexity (linked : p.Linked) (place : Option Files.Place)
    (measured : Audit.Measured) : (p.withComplexity place measured).Linked := by
  refine linked.of_map (fun _ => Audit.measure place measured) rfl rfl fun _ f => ?_
  rw [Audit.measure_eq]
  cases Audit.complexityOf? place measured f <;> exact ⟨rfl, rfl, rfl⟩

theorem Linked.counted (linked : p.Linked) (place : Option Files.Place) :
    (p.counted place).Linked := by
  refine linked.of_map (fun _ => Audit.countMarkers place) rfl rfl fun _ f => ?_
  rw [Audit.countMarkers]
  cases Audit.markers? place f <;> exact ⟨rfl, rfl, rfl⟩

theorem Linked.withHistory (linked : p.Linked) (config : Config) (entries : List History.Entry) :
    (p.withHistory config entries).Linked := by
  rw [withHistory_eq]
  exact linked.of_map _ rfl rfl fun _ _ => ⟨rfl, rfl, rfl⟩

theorem Linked.scored (linked : p.Linked) : p.scored.Linked :=
  linked.of_map (fun _ f => { f with hotness := Ranking.hotness p.files.values f }) rfl rfl
    fun _ _ => ⟨rfl, rfl, rfl⟩

/-- An issue that one file of the project has for a kind. -/
def IsOf (p : Project) (kind : IssueKind) (i : Issue) : Prop :=
  i.kind = kind ∧ ∃ key f, p.files.get? key = some f ∧ i.id = issueId kind f.path ∧ i.file = some f.id

theorem IsOf.identified {kind : IssueKind} {i : Issue} (own : p.IsOf kind i) : i.Identified := by
  obtain ⟨rfl, _, f, _, id, _⟩ := own
  exact ⟨f.path, id⟩

theorem Linked.replaceAll_of (linked : p.Linked) {kind : IssueKind} {issues : List Issue}
    (own : ∀ i ∈ issues, p.IsOf kind i) : (p.replaceAll kind issues).Linked := by
  refine linked.replaceAll (fun i member => (own i member).1)
    (fun i member => (own i member).identified) (fun i member key about => ?_)
    fun i hi j hj same => ?_
  · obtain ⟨-, key', f, stored, -, file⟩ := own i member
    obtain rfl := Option.some.inj (about.symm.trans file)
    exact ⟨f, by rw [(linked.files key' f stored).1, stored]⟩
  · obtain ⟨-, key, f, stored, id, file⟩ := own i hi
    obtain ⟨-, key', f', stored', id', file'⟩ := own j hj
    have paths := key_of_issueId (id.symm.trans (same.trans id'))
    rw [file, file', (linked.files key f stored).2, (linked.files key' f' stored').2, paths]

/-- An issue about markers stands for some markers of one file. -/
theorem exists_of_markerIssue {place : Option Files.Place} {i : Issue}
    (member : i ∈ p.markerIssues place) :
    ∃ f ∈ p.files.values, ∃ m rest, Audit.markerIssue? f (m :: rest) = some i := by
  obtain ⟨f, value, found⟩ := List.mem_filterMap.mp member
  obtain ⟨ms, -, issue⟩ := Option.bind_eq_some_iff.mp found
  cases ms with
  | nil => cases issue
  | cons m rest => exact ⟨f, value, m, rest, issue⟩

theorem isOf_markerIssues (place : Option Files.Place) :
    ∀ i ∈ p.markerIssues place, p.IsOf .todo i := by
  intro i member
  obtain ⟨f, value, m, rest, issue⟩ := exists_of_markerIssue member
  obtain ⟨key, stored⟩ := SortedMap.mem_values.mp value
  obtain rfl := Option.some.inj issue
  exact ⟨rfl, key, f, stored, rfl, rfl⟩

theorem isOf_hotspots (topN : Nat) : ∀ i ∈ p.hotspots topN, p.IsOf .hotspot i := by
  intro i member
  obtain ⟨f, hot, rfl⟩ := List.mem_map.mp member
  have ranked := (List.mem_filter.mp (List.mem_of_mem_take hot)).1
  obtain ⟨key, stored⟩ := SortedMap.mem_values.mp ((List.mergeSort_perm _ _).mem_iff.mp ranked)
  exact ⟨rfl, key, f, stored, rfl, rfl⟩

end Links

/-! ### What goes with the language -/

/-- A file about which nothing is noted that its language does not call for. -/
structure File.Sound (f : File) : Prop where
  language : f.language = Source.language? f.path
  unmeasured : f.language.bind Source.decisionRule? = none →
    f.complexity = none ∧ f.maintainability = none
  unsearched : f.language.filter (!Audit.unmarkedLanguages.contains ·) = none → f.todoCount = 0

theorem File.Sound.describe {hash : Digest.Algorithm} {before : Option File} {t : Audit.TextFile}
    (sound : ∀ f, before = some f → f.Sound ∧ f.path = t.path)
    (language : t.language = Source.language? t.path) : (t.describe hash before).Sound := by
  cases before with
  | none => exact ⟨language, fun _ => ⟨rfl, rfl⟩, fun _ => rfl⟩
  | some f =>
    obtain ⟨sound, path⟩ := sound f rfl
    have same : t.language = f.language := by rw [language, sound.language, path]
    refine ⟨language.trans (congrArg Source.language? path.symm), fun unmeasured => ?_,
      fun unsearched => ?_⟩
    · exact sound.unmeasured (same ▸ unmeasured)
    · exact sound.unsearched (same ▸ unsearched)

theorem File.Sound.measure {f : File} (sound : f.Sound) (place : Option Files.Place)
    (measured : Audit.Measured) : (Audit.measure place measured f).Sound := by
  rw [Audit.measure_eq]
  cases found : Audit.complexityOf? place measured f with
  | none => exact sound
  | some c =>
    refine ⟨sound.language, fun unmeasured => ?_, sound.unsearched⟩
    have absent : Audit.complexityOf? place measured f = none :=
      Audit.complexityOf?_eq_none.mpr (.inl unmeasured)
    rw [found] at absent
    cases absent

theorem File.Sound.countMarkers {f : File} (sound : f.Sound) (place : Option Files.Place) :
    (Audit.countMarkers place f).Sound := by
  rw [Audit.countMarkers]
  cases found : Audit.markers? place f with
  | none => exact sound
  | some ms =>
    refine ⟨sound.language, sound.unmeasured, fun unsearched => ?_⟩
    have absent : Audit.markers? place f = none := Audit.markers?_eq_none.mpr (.inl unsearched)
    rw [found] at absent
    cases absent

/-- Issues and links are in step, issues are of the kinds that an audit replaces, and files are
sound. -/
structure Audited (p : Project) : Prop extends p.Linked where
  kinds : ∀ id i, p.issues.get? id = some i → i.kind ∈ Audit.kinds
  sound : ∀ id f, p.files.get? id = some f → f.Sound

/-- A project of which only that is known which no stage changes. -/
def header (p : Project) : Project where
  id := p.id
  name := p.name
  root := p.root
  analyzedAt := p.analyzedAt
  gitHead := p.gitHead
  validation := p.validation

theorem audited_header (p : Project) : p.header.Audited where
  files _ _ stored := nomatch stored
  issues _ _ stored := nomatch stored
  known _ _ _ stored := nomatch stored
  nodup _ _ stored := nomatch stored
  links _ _ stored := nomatch stored
  kinds _ _ stored := nomatch stored
  sound _ _ stored := nomatch stored

section Stages

variable {p q : Project}

theorem Audited.of_map (audited : p.Audited) (linked : q.Linked) {g : String → File → File}
    (files : q.files = p.files.mapValues g) (issues : q.issues = p.issues)
    (sound : ∀ id f, f.Sound → (g id f).Sound) : q.Audited := by
  refine ⟨linked, issues ▸ audited.kinds, fun id f stored => ?_⟩
  rw [files, SortedMap.get?_mapValues] at stored
  obtain ⟨before, held, rfl⟩ := Option.map_eq_some_iff.mp stored
  exact sound id before (audited.sound id before held)

theorem Audited.clear (audited : p.Audited) (kind : IssueKind) : (p.clear kind).Audited := by
  refine ⟨audited.toLinked.clear kind, fun id i left => ?_, fun id f stored => ?_⟩
  · exact audited.kinds id i (audited.issues.get?_clear.mp left).1
  · rw [clear_eq, files_relinked] at stored
    obtain ⟨before, held, rfl⟩ := Option.map_eq_some_iff.mp stored
    have ⟨language, unmeasured, unsearched⟩ := audited.sound id before held
    exact ⟨language, unmeasured, unsearched⟩

theorem Audited.replaceAll (audited : p.Audited) {kind : IssueKind} {issues : List Issue}
    (own : ∀ i ∈ issues, p.IsOf kind i) (among : kind ∈ Audit.kinds) :
    (p.replaceAll kind issues).Audited := by
  refine ⟨audited.toLinked.replaceAll_of own, fun id i stored => ?_, fun id f stored => ?_⟩
  · rw [issues_replaceAll, Option.or_eq_some_iff] at stored
    rcases stored with new | ⟨-, old⟩
    · have member := List.mem_reverse.mp (List.mem_of_find?_eq_some new)
      rwa [(own i member).1]
    · exact audited.kinds id i (Option.filter_eq_some_iff.mp old).1
  · rw [files_replaceAll] at stored
    obtain ⟨before, held, rfl⟩ := Option.map_eq_some_iff.mp stored
    have ⟨language, unmeasured, unsearched⟩ := audited.sound id before held
    exact ⟨language, unmeasured, unsearched⟩

theorem Audited.withSources (audited : p.Audited) (hash : Digest.Algorithm)
    (sources : List Audit.Source) : (p.withSources hash sources).Audited := by
  refine ⟨audited.toLinked.withSources hash sources, fun id i stored => ?_,
    fun id f stored => ?_⟩
  · exact audited.kinds id i (audited.toLinked.issues_withSources.mp stored).1
  · obtain ⟨s, -, t, text, rfl, rfl⟩ := exists_text stored
    refine .describe (fun f before => ⟨audited.sound _ f before, ?_⟩) ?_
    · have described := audited.toLinked.describe hash t
      rw [before] at described
      exact described.2
    · rw [Audit.TextFile.eq_of_ofSource? text]

theorem Audited.counted (audited : p.Audited) (place : Option Files.Place) :
    (p.counted place).Audited :=
  audited.of_map (g := fun _ => Audit.countMarkers place) (audited.toLinked.counted place) rfl rfl
    fun _ _ sound => sound.countMarkers place

theorem Audited.withHistory (audited : p.Audited) (config : Config)
    (entries : List History.Entry) : (p.withHistory config entries).Audited := by
  have linked := audited.toLinked.withHistory config entries
  rw [withHistory_eq] at linked ⊢
  exact audited.of_map linked rfl rfl fun _ _ ⟨language, unmeasured, unsearched⟩ =>
    ⟨language, unmeasured, unsearched⟩

theorem Audited.scored (audited : p.Audited) : p.scored.Audited :=
  audited.of_map (g := fun _ f => { f with hotness := Ranking.hotness p.files.values f })
    audited.toLinked.scored rfl rfl fun _ _ ⟨language, unmeasured, unsearched⟩ =>
      ⟨language, unmeasured, unsearched⟩

/-- One stage keeps all this, and the header. -/
theorem Audited.step (audited : p.Audited) {stage : Audit.Stage} {s : Audit.Subject}
    (ran : stage.run s p = .ok q) : q.Audited ∧ q.header = p.header := by
  cases stage with
  | sources =>
    cases found : Audit.sources s.config s.root s.place with
    | error e => simp [Audit.Stage.run, found] at ran
    | ok sources =>
      simp only [Audit.Stage.run, found] at ran
      obtain rfl := Except.ok.inj ran
      exact ⟨audited.withSources s.config.walk.hash sources, rfl⟩
  | complexity =>
    obtain rfl := Except.ok.inj ran
    exact ⟨audited.of_map (g := fun _ => Audit.measure s.place s.measured)
      (audited.toLinked.withComplexity s.place s.measured) rfl rfl
      fun _ _ sound => sound.measure s.place s.measured, rfl⟩
  | weakness =>
    obtain rfl := Except.ok.inj ran
    rw [withMarkers_eq]
    refine ⟨(audited.counted s.place).replaceAll (isOf_markerIssues s.place) (by decide), ?_⟩
    rw [replaceAll_eq]
    rfl
  | history =>
    obtain rfl := Except.ok.inj ran
    exact ⟨(audited.withHistory s.config s.entries).clear .dirtyWorktree, rfl⟩
  | hotspots =>
    obtain rfl := Except.ok.inj ran
    rw [withHotspots_eq]
    refine ⟨audited.scored.replaceAll (isOf_hotspots s.config.hotspots.topN) (by decide), ?_⟩
    rw [replaceAll_eq]
    rfl

/-- Any sequence of stages keeps all this. -/
theorem Audited.run (audited : p.Audited) (stages : List Audit.Stage) (s : Audit.Subject) :
    (Audit.run stages s p).project.Audited ∧ (Audit.run stages s p).project.header = p.header := by
  have onward (o : Audit.Outcome) (before : o.project.Audited) :
      (stages.foldl (Audit.Outcome.next s) o).project.Audited ∧
        (stages.foldl (Audit.Outcome.next s) o).project.header = o.project.header := by
    induction stages generalizing o with
    | nil => exact ⟨before, rfl⟩
    | cons stage rest ih =>
      have next : (o.next s stage).project.Audited ∧
          (o.next s stage).project.header = o.project.header := by
        rw [Audit.Outcome.next]
        cases ran : stage.run s o.project with
        -- a stage that fails leaves the project as it was
        | error e => exact ⟨before, rfl⟩
        | ok q => exact before.step ran
      obtain ⟨after, same⟩ := ih (o.next s stage) next.1
      exact ⟨after, same.trans next.2⟩
  exact onward ⟨p, []⟩ audited

end Stages

end Project
end RepoAudit
