import RepoAudit.Proofs.Audit.Invariant
import RepoAudit.Proofs.Audit.Sizes
import RepoAudit.Proofs.History.Coupling
import RepoAudit.Proofs.History.Leaders
import RepoAudit.Proofs.Project.Modules
import RepoAudit.Proofs.Ranking.Hotness

/-!
# Records that refer to each other

What a record refers to is there: a file has its module, owners and authors are contributors, modules
and pairs are of files. Its numbers are in their ranges. Every stage keeps this, and so it holds of
whatever a sequence of stages makes of a new project.
-/

namespace RepoAudit

open Project

/-! ### What an audit is given -/

/-- A hash of a commit, or the start of one. -/
def History.IsHash (sha : String) : Prop :=
  7 ≤ sha.length ∧ sha.length ≤ 64 ∧ sha.toList ⊆ "0123456789abcdef".toList

instance : DecidablePred History.IsHash := fun _ => inferInstanceAs (Decidable (_ ∧ _ ∧ _))

namespace Audit

/-- The texts among the files of a subject. -/
def Subject.texts (s : Subject) : List TextFile :=
  match sources s.config s.root s.place with
  | .ok found => found.filterMap TextFile.ofSource?
  | .error _ => []

theorem Subject.texts_eq {s : Subject} {found : List Source}
    (read : sources s.config s.root s.place = .ok found) :
    s.texts = found.filterMap TextFile.ofSource? := by
  rw [texts, read]

/-- Paths can be told from each other when they are joined by a bar, commits have hashes, and sizes
and numbers of lines fit into 64 bits. -/
structure Subject.Proper (s : Subject) : Prop where
  paths : ∀ t ∈ s.texts, t.path ≠ "" ∧ '|' ∉ t.path.toList
  sizes : ∀ t ∈ s.texts, t.content.length < 2 ^ 63
  hashes : ∀ e ∈ s.entries, History.IsHash e.sha
  lines : (s.entries.map History.Entry.allLines).sum < 2 ^ 64

/-- The complexities that are found are finite and not negative. -/
def Subject.Finite (s : Subject) : Prop :=
  ∀ t ∈ s.texts, ∀ c ∈ complexityOf? s.place s.measured
    { File.ofPath t.path with language := t.language }, 0.0 ≤ c ∧ c.isFinite = true

end Audit

namespace Project

/-! ### Records in their places -/

/-- A file of a text, with numbers in their ranges, whose module and owner are there. -/
structure File.InPlace (s : Audit.Subject) (p : Project) (f : File) : Prop where
  text : ∃ t ∈ s.texts, f.path = t.path
  measurable : Ranking.Measurable f
  hotness : 0.0 ≤ f.hotness ∧ f.hotness ≤ 1.0
  grouped : p.modules.contains (moduleId f.moduleName) = true
  owned : ∀ person, f.owner = some person → p.contributors.contains person = true

/-- A module with files, all of which are there. -/
structure Module.InPlace (p : Project) (id : String) (m : Module) : Prop where
  stored : m.id = id
  named : m.id = moduleId m.name
  filled : ∃ file, file ∈ m.files
  files : ∀ file ∈ m.files, p.files.contains file = true

structure Person.InPlace (id : String) (c : Person) : Prop where
  stored : c.id = id
  named : ∃ name email, c.id = personId name email

/-- A commit whose author is there. -/
structure Commit.InPlace (p : Project) (id : String) (c : Commit) : Prop where
  stored : c.id = id
  named : c.id = commitId c.sha
  hash : History.IsHash c.sha
  author : p.contributors.contains c.author = true

/-- A pair of files that are there, which changed together. -/
structure UnorderedPair.InPlace (p : Project) (pair : UnorderedPair) (weight : Nat) : Prop where
  positive : 0 < weight
  first : p.files.contains pair.first = true
  second : p.files.contains pair.second = true

/-- All records are in their places. -/
structure Coherent (s : Audit.Subject) (p : Project) : Prop extends p.Audited where
  inPlace : ∀ id f, p.files.get? id = some f → f.InPlace s p
  modules : ∀ id m, p.modules.get? id = some m → m.InPlace p id
  contributors : ∀ id c, p.contributors.get? id = some c → c.InPlace id
  commits : ∀ id c, p.commits.get? id = some c → c.InPlace p id
  coupling : ∀ pair n, p.coupling.get? pair = some n → UnorderedPair.InPlace p pair n
  titled : ∀ id i, p.issues.get? id = some i → i.title ≠ ""

variable {s : Audit.Subject} {p q : Project}

theorem coherent_header (s : Audit.Subject) (p : Project) : p.header.Coherent s where
  toAudited := audited_header p
  inPlace _ _ stored := nomatch stored
  modules _ _ stored := nomatch stored
  contributors _ _ stored := nomatch stored
  commits _ _ stored := nomatch stored
  coupling _ _ stored := nomatch stored
  titled _ _ stored := nomatch stored

/-- The records other than files and issues are the same. -/
structure SameOthers (p q : Project) : Prop where
  modules : q.modules = p.modules
  contributors : q.contributors = p.contributors
  commits : q.commits = p.commits
  coupling : q.coupling = p.coupling

theorem contains_mapValues {κ : Type} [Ord κ] [Std.LawfulEqOrd κ] {α β : Type} (m : SortedMap κ α) (f : κ → α → β) (k : κ) :
    (m.mapValues f).contains k = m.contains k := by
  rw [SortedMap.contains, SortedMap.get?_mapValues, Option.isSome_map, SortedMap.contains]

/-- Files may be changed in place, but for their paths and owners. -/
theorem Coherent.of_map (coherent : p.Coherent s) (audited : q.Audited) (same : p.SameOthers q)
    {g : String → File → File} (files : q.files = p.files.mapValues g)
    (keeps : ∀ id f, (g id f).path = f.path ∧ (g id f).owner = f.owner)
    (numbers : ∀ id f, p.files.get? id = some f → f.InPlace s p →
      Ranking.Measurable (g id f) ∧ 0.0 ≤ (g id f).hotness ∧ (g id f).hotness ≤ 1.0)
    (titled : ∀ id i, q.issues.get? id = some i → i.title ≠ "") : q.Coherent s := by
  obtain ⟨modules, contributors, commits, coupling⟩ := same
  have there (id : String) : q.files.contains id = p.files.contains id := by
    rw [files, contains_mapValues]
  refine ⟨audited, fun id f stored => ?_, fun id m stored => ?_, ?_, ?_, fun pair n stored => ?_,
    titled⟩
  · rw [files, SortedMap.get?_mapValues] at stored
    obtain ⟨before, held, rfl⟩ := Option.map_eq_some_iff.mp stored
    have place := coherent.inPlace id before held
    obtain ⟨path, owner⟩ := keeps id before
    obtain ⟨measurable, hotness⟩ := numbers id before held place
    refine ⟨path ▸ place.text, measurable, hotness, ?_, ?_⟩
    · rw [modules, File.moduleName, path]
      exact place.grouped
    · rw [contributors, owner]
      exact place.owned
  · obtain ⟨atId, named, filled, among⟩ := coherent.modules id m (modules ▸ stored)
    exact ⟨atId, named, filled, fun file member => (there file).trans (among file member)⟩
  · rw [contributors]
    exact coherent.contributors
  · rw [commits]
    intro id c stored
    obtain ⟨atId, named, hash, author⟩ := coherent.commits id c stored
    exact ⟨atId, named, hash, contributors ▸ author⟩
  · obtain ⟨positive, first, second⟩ := coherent.coupling pair n (coupling ▸ stored)
    exact ⟨positive, (there _).trans first, (there _).trans second⟩

/-! ### Issues -/

theorem replaceAll_relinked (p : Project) (kind : IssueKind) (issues : List Issue) :
    p.replaceAll kind issues = p.relinked (p.replaceAll kind issues).issues fun id old =>
      linkAll (old.filter (!(p.idsOf kind).contains ·)) (idsAbout issues id) := by
  have files : (p.replaceAll kind issues).files = p.files.mapValues fun id f =>
      f.relink fun old => linkAll (old.filter (!(p.idsOf kind).contains ·)) (idsAbout issues id) := by
    refine SortedMap.ext_get? fun id => ?_
    rw [files_replaceAll, SortedMap.get?_mapValues]
    rfl
  rw [relinked, ← files]
  exact replaceAll_eq p kind issues

theorem Coherent.relinked (coherent : p.Coherent s) {issues : SortedMap String Issue}
    {links : String → List String → List String} (audited : (p.relinked issues links).Audited)
    (titled : ∀ id i, issues.get? id = some i → i.title ≠ "") :
    (p.relinked issues links).Coherent s :=
  coherent.of_map (g := fun id f => f.relink (links id)) audited ⟨rfl, rfl, rfl, rfl⟩ rfl
    (fun _ _ => ⟨rfl, rfl⟩) (fun _ _ _ place => ⟨place.measurable, place.hotness⟩) titled

theorem Coherent.clear (coherent : p.Coherent s) (kind : IssueKind) : (p.clear kind).Coherent s := by
  have audited := coherent.toAudited.clear kind
  rw [clear_eq] at audited ⊢
  refine coherent.relinked audited fun id i stored => ?_
  rw [SortedMap.get?_filter, Option.filter_eq_some_iff] at stored
  exact coherent.titled id i stored.1

theorem Coherent.replaceAll (coherent : p.Coherent s) {kind : IssueKind} {issues : List Issue}
    (own : ∀ i ∈ issues, p.IsOf kind i) (among : kind ∈ Audit.kinds)
    (titled : ∀ i ∈ issues, i.title ≠ "") : (p.replaceAll kind issues).Coherent s := by
  have audited := coherent.toAudited.replaceAll own among
  rw [replaceAll_relinked] at audited ⊢
  refine coherent.relinked audited fun id i stored => ?_
  rw [issues_replaceAll, Option.or_eq_some_iff] at stored
  rcases stored with new | ⟨-, old⟩
  · exact titled i (List.mem_reverse.mp (List.mem_of_find?_eq_some new))
  · exact coherent.titled id i (Option.filter_eq_some_iff.mp old).1

theorem titled_markerIssues (place : Option Files.Place) :
    ∀ i ∈ p.markerIssues place, i.title ≠ "" := by
  intro i member empty
  obtain ⟨f, -, m, rest, issue⟩ := exists_of_markerIssue member
  obtain rfl := Option.some.inj issue
  have chars := congrArg String.toList empty
  simp [toString] at chars

theorem titled_hotspots (topN : Nat) : ∀ i ∈ p.hotspots topN, i.title ≠ "" := by
  intro i member
  obtain ⟨f, -, rfl⟩ := List.mem_map.mp member
  intro empty
  have chars := congrArg String.toList empty
  simp [Ranking.hotspot, toString] at chars

/-! ### Numbers of files -/

theorem language_of_mem_texts {t : Audit.TextFile} (member : t ∈ s.texts) :
    t.language = Source.language? t.path := by
  rw [Audit.Subject.texts] at member
  split at member
  · obtain ⟨source, -, text⟩ := List.mem_filterMap.mp member
    rw [Audit.TextFile.eq_of_ofSource? text]
  · cases member

theorem Coherent.withComplexity (coherent : p.Coherent s) (finite : s.Finite) :
    (p.withComplexity s.place s.measured).Coherent s := by
  have audited : (p.withComplexity s.place s.measured).Audited :=
    coherent.toAudited.of_map (g := fun _ => Audit.measure s.place s.measured)
      (coherent.toLinked.withComplexity s.place s.measured) rfl rfl
      fun _ _ sound => sound.measure s.place s.measured
  refine coherent.of_map (g := fun _ => Audit.measure s.place s.measured) audited
    ⟨rfl, rfl, rfl, rfl⟩ rfl (fun _ f => ?_) (fun id f stored place => ?_) coherent.titled
  · rw [Audit.measure_eq]
    cases Audit.complexityOf? s.place s.measured f <;> exact ⟨rfl, rfl⟩
  · rw [Audit.measure_eq]
    cases found : Audit.complexityOf? s.place s.measured f with
    | none => exact ⟨place.measurable, place.hotness⟩
    | some c =>
      obtain ⟨t, member, path⟩ := place.text
      have language : f.language = t.language := by
        rw [(coherent.sound id f stored).language, path, language_of_mem_texts member]
      have same : Audit.complexityOf? s.place s.measured
          { File.ofPath t.path with language := t.language } = some c := by
        rw [← found, Audit.complexityOf?, Audit.complexityOf?, Audit.textOf?, Audit.textOf?,
          language, path]
        rfl
      obtain ⟨nonneg, isFinite⟩ := finite t member c same
      exact ⟨⟨place.measurable.1, place.measurable.2.1,
        Decimal.bounded_of_nonneg nonneg isFinite⟩, place.hotness⟩

theorem Coherent.counted (coherent : p.Coherent s) : (p.counted s.place).Coherent s := by
  refine coherent.of_map (g := fun _ => Audit.countMarkers s.place)
    (coherent.toAudited.counted s.place) ⟨rfl, rfl, rfl, rfl⟩ rfl (fun _ f => ?_)
    (fun id f stored place => ?_) coherent.titled
  · rw [Audit.countMarkers]
    cases Audit.markers? s.place f <;> exact ⟨rfl, rfl⟩
  · rw [Audit.countMarkers]
    cases Audit.markers? s.place f <;> exact ⟨place.measurable, place.hotness⟩

theorem Coherent.scored (coherent : p.Coherent s) : p.scored.Coherent s := by
  have measurable : ∀ f ∈ p.files.values, Ranking.Measurable f := by
    intro f member
    obtain ⟨id, stored⟩ := SortedMap.mem_values.mp member
    exact (coherent.inPlace id f stored).measurable
  refine coherent.of_map (g := fun _ f => { f with hotness := Ranking.hotness p.files.values f })
    coherent.toAudited.scored ⟨rfl, rfl, rfl, rfl⟩ rfl (fun _ _ => ⟨rfl, rfl⟩)
    (fun id f stored place => ⟨place.measurable, ?_⟩) coherent.titled
  exact Ranking.hotness_mem measurable (SortedMap.mem_values.mpr ⟨id, stored⟩)

/-! ### Files and modules -/

theorem contains_withSources {hash : Digest.Algorithm} {found : List Audit.Source}
    (read : Audit.sources s.config s.root s.place = .ok found) {id : String} :
    (p.withSources hash found).files.contains id = true ↔ ∃ t ∈ s.texts, id = fileId t.path := by
  rw [Audit.Subject.texts_eq read]
  change (SortedMap.get? (SortedMap.ofList _) id).isSome = true ↔ _
  rw [SortedMap.get?_ofList, Option.isSome_map, List.getLast?_isSome, ne_eq,
    List.filter_eq_nil_iff]
  generalize found.filterMap Audit.TextFile.ofSource? = texts
  simp [eq_comm]

/-- What a module tells of files. -/
structure Module.Groups (m : Module) (id : String) (files : List File) : Prop where
  stored : m.id = id
  named : m.id = moduleId m.name
  filled : ∃ file, file ∈ m.files
  files : ∀ file ∈ m.files, ∃ f ∈ files, f.id = file

theorem groups_modules {files : List File} {id : String} {m : Module}
    (stored : (Audit.modules files).get? id = some m) : m.Groups id files := by
  obtain ⟨name, rfl, ⟨f, member, own⟩, rfl⟩ := get?_modules_eq_some_iff.mp stored
  have listed : f ∈ files.filter (·.moduleName = name) :=
    List.mem_filter.mpr ⟨member, decide_eq_true own⟩
  refine ⟨rfl, rfl, ⟨f.id, mem_ofFiles.mpr ⟨f, listed, rfl⟩⟩, fun file inside => ?_⟩
  obtain ⟨f', listed', same⟩ := mem_ofFiles.mp inside
  exact ⟨f', (List.mem_filter.mp listed').1, same⟩

theorem contains_modules {files : List File} {f : File} (member : f ∈ files) :
    (Audit.modules files).contains (moduleId f.moduleName) = true := by
  have stored := get?_modules_eq_some_iff.mpr ⟨f.moduleName, rfl, ⟨f, member, rfl⟩, rfl⟩
  rw [SortedMap.contains, stored]
  rfl

/-- A file that is described anew keeps its place. -/
theorem Coherent.describe (coherent : p.Coherent s) (proper : s.Proper) {hash : Digest.Algorithm}
    {t : Audit.TextFile} (listed : t ∈ s.texts) {f : File}
    (same : f = t.describe hash (p.files.get? (fileId t.path)))
    (grouped : q.modules.contains (moduleId f.moduleName) = true)
    (known : q.contributors = p.contributors) : f.InPlace s q := by
  have path := (coherent.toLinked.describe hash t).2
  rw [← same] at path
  have loc : f.loc < 2 ^ 64 := by
    have lines := t.lineCount_le
    have size := proper.sizes t listed
    have counted : f.loc = Source.lineCount t.text := same ▸ rfl
    omega
  cases before : p.files.get? (fileId t.path) with
  | none =>
    rw [before] at same
    have churn : f.churn = 0 := same ▸ rfl
    have complexity : Ranking.File.complexityOrZero f = 0.0 := same ▸ rfl
    have hotness : f.hotness = 0.0 := same ▸ rfl
    refine ⟨⟨t, listed, path⟩, ⟨by omega, loc, ?_⟩, ?_, grouped, fun person owned => ?_⟩
    · rw [complexity]
      exact Decimal.bounded_zero 971
    · rw [hotness]
      decide +kernel
    · rw [same] at owned
      cases owned
  | some b =>
    rw [before] at same
    have place := coherent.inPlace _ b before
    subst same
    exact ⟨⟨t, listed, path⟩, ⟨place.measurable.1, loc, place.measurable.2.2⟩, place.hotness,
      grouped, known ▸ place.owned⟩

/-- Modules that are gathered from the files are in their places. -/
theorem Linked.modules_inPlace (linked : p.Linked)
    (gathered : p.modules = Audit.modules p.files.values) {id : String} {m : Module}
    (stored : p.modules.get? id = some m) : m.InPlace p id := by
  obtain ⟨atId, named, filled, among⟩ := groups_modules (gathered ▸ stored)
  refine ⟨atId, named, filled, fun file inside => ?_⟩
  obtain ⟨f, member, rfl⟩ := among file inside
  obtain ⟨id', held⟩ := SortedMap.mem_values.mp member
  rw [(linked.files id' f held).1]
  exact Option.isSome_iff_exists.mpr ⟨f, held⟩

theorem Coherent.withSources (coherent : p.Coherent s) (proper : s.Proper)
    (hash : Digest.Algorithm) {found : List Audit.Source}
    (read : Audit.sources s.config s.root s.place = .ok found) :
    (p.withSources hash found).Coherent s := by
  have stay {id : String} (there : p.files.contains id = true) :
      (p.withSources hash found).files.contains id = true := by
    obtain ⟨f, stored⟩ := Option.isSome_iff_exists.mp there
    obtain ⟨t, member, path⟩ := (coherent.inPlace id f stored).text
    obtain ⟨atId, named⟩ := coherent.files id f stored
    exact (contains_withSources read).mpr ⟨t, member, by rw [← atId, named, path]⟩
  refine ⟨coherent.toAudited.withSources hash found, fun id f stored => ?_, fun id m stored => ?_,
    coherent.contributors, ?_, fun pair n stored => ?_, fun id i stored => ?_⟩
  · obtain ⟨source, member, t, text, rfl, same⟩ := exists_text stored
    have listed : t ∈ s.texts := by
      rw [Audit.Subject.texts_eq read]
      exact List.mem_filterMap.mpr ⟨source, member, text⟩
    have grouped := contains_modules (SortedMap.mem_values.mpr ⟨_, stored⟩)
    exact coherent.describe proper listed same grouped rfl
  · exact (coherent.toLinked.withSources hash found).modules_inPlace rfl stored
  · intro id c stored
    obtain ⟨atId, named, hash, author⟩ := coherent.commits id c stored
    exact ⟨atId, named, hash, author⟩
  · obtain ⟨positive, first, second⟩ := coherent.coupling pair n stored
    exact ⟨positive, stay first, stay second⟩
  · exact coherent.titled id i (coherent.toLinked.issues_withSources.mp stored).1

/-! ### Histories -/

theorem Linked.keyed (linked : p.Linked) : p.KeyedByPath := by
  intro e stored
  obtain ⟨atId, named⟩ := linked.files e.1 e.2 ((SortedMap.mem_entries _).mp stored)
  exact atId.symm.trans named

section History

variable {config : Config} {entries : List History.Entry}

theorem contains_contributors {person : String} :
    (p.withHistory config entries).contributors.contains person = true ↔
      ∃ e ∈ entries, e.author = person := by
  rw [withHistory_eq]
  exact Option.isSome_iff_exists.trans (History.exists_person_iff _ _ _ person)

theorem contains_files_withHistory {id : String} :
    (p.withHistory config entries).files.contains id = p.files.contains id := by
  rw [withHistory_eq]
  exact contains_mapValues _ _ _

theorem Person.inPlace_withHistory {id : String} {c : Person}
    (stored : (p.withHistory config entries).contributors.get? id = some c) : c.InPlace id := by
  rw [withHistory_eq] at stored
  dsimp only at stored
  rw [touches, History.get?_withOwned] at stored
  obtain ⟨first, own, same⟩ := Option.map_eq_some_iff.mp stored
  have named : c.id = first.author := by rw [← same, History.personOf]
  have author : first.author = id :=
    of_decide_eq_true (List.mem_filter.mp (List.mem_of_head? own)).2
  exact ⟨named.trans author, first.name, first.email, named⟩

theorem Commit.inPlace_withHistory (hashes : ∀ e ∈ entries, History.IsHash e.sha) {id : String}
    {c : Commit} (stored : (p.withHistory config entries).commits.get? id = some c) :
    c.InPlace (p.withHistory config entries) id := by
  have listed : (id, c) ∈ (p.touches config entries).map fun t => (t.commit.id, t.commit) := by
    rw [withHistory_eq] at stored
    exact SortedMap.mem_of_get?_ofList stored
  obtain ⟨t, member, same⟩ := List.mem_map.mp listed
  obtain ⟨e, entry, rfl⟩ := List.mem_map.mp member
  obtain ⟨rfl, rfl⟩ := Prod.mk.inj same
  have author := (History.commitAccount_touch (p.counts config) e).author
  refine ⟨rfl, rfl, hashes e entry, ?_⟩
  rw [author]
  exact contains_contributors.mpr ⟨e, entry, rfl⟩

theorem UnorderedPair.inPlace_withHistory (keyed : p.KeyedByPath) {pair : UnorderedPair} {n : Nat}
    (stored : (p.withHistory config entries).coupling.get? pair = some n) :
    UnorderedPair.InPlace (p.withHistory config entries) pair n := by
  obtain ⟨x, y, rfl, -, knownX, knownY⟩ := files_of_pair keyed stored
  rw [get?_withHistory_coupling] at stored
  obtain ⟨enough, same⟩ := Option.ite_none_right_eq_some.mp stored
  obtain rfl := Option.some.inj same
  have positive := (le_max_left 1 config.history.minCouplingWeight).trans enough
  have kept (id : String) : (p.withHistory config entries).files.contains id =
      p.files.contains id := contains_files_withHistory
  rw [← kept] at knownX knownY
  rcases UnorderedPair.of_cases x y with ⟨first, second⟩ | ⟨first, second⟩
  · exact ⟨positive, first.symm ▸ knownX, second.symm ▸ knownY⟩
  · exact ⟨positive, first.symm ▸ knownY, second.symm ▸ knownX⟩

/-- Whoever owns a file has changed it. -/
theorem author_of_owner (keyed : p.KeyedByPath) {id : String} {f : File}
    (stored : p.files.get? id = some f) {threshold : Float} {person : String}
    (owner : (History.credit threshold (p.touches config entries) id f).owner = some person) :
    ∃ e ∈ entries, e.author = person := by
  have account := History.fileAccount_credit threshold (p.counts config) entries
    (keyed _ ((SortedMap.mem_entries _).mpr stored))
  obtain ⟨lines, share, -⟩ := History.leads_of_owner owner
  have stated := (account.contributions person).symm.trans share
  dsimp only at stated
  obtain ⟨filled, -⟩ := Option.ite_none_left_eq_some.mp stated
  obtain ⟨e, own⟩ := List.exists_mem_of_ne_nil _ filled
  obtain ⟨touching, author⟩ := List.mem_filter.mp own
  exact ⟨e, (List.mem_filter.mp touching).1, of_decide_eq_true author⟩

end History

theorem Coherent.withHistory (coherent : p.Coherent s) (proper : s.Proper) :
    (p.withHistory s.config s.entries).Coherent s := by
  have keyed := coherent.toLinked.keyed
  have modules : (p.withHistory s.config s.entries).modules = p.modules := rfl
  have files : (p.withHistory s.config s.entries).files = p.files.mapValues (History.credit
    s.config.history.ownershipThreshold (p.touches s.config s.entries)) := by rw [withHistory_eq]
  refine ⟨coherent.toAudited.withHistory s.config s.entries, fun id f stored => ?_,
    fun id m stored => ?_, fun _ _ => Person.inPlace_withHistory,
    fun _ _ => Commit.inPlace_withHistory proper.hashes,
    fun _ _ => UnorderedPair.inPlace_withHistory keyed, coherent.titled⟩
  · rw [files, SortedMap.get?_mapValues] at stored
    obtain ⟨before, held, rfl⟩ := Option.map_eq_some_iff.mp stored
    obtain ⟨text, measurable, hotness, grouped, -⟩ := coherent.inPlace id before held
    have account := History.fileAccount_credit s.config.history.ownershipThreshold
      (p.counts s.config) s.entries (keyed _ ((SortedMap.mem_entries _).mpr held))
    exact ⟨text, ⟨account.churn_le.trans_lt proper.lines, measurable.2⟩, hotness, grouped,
      fun person owned => contains_contributors.mpr (author_of_owner keyed held owned)⟩
  · obtain ⟨atId, named, filled, among⟩ := coherent.modules id m stored
    exact ⟨atId, named, filled, fun file inside =>
      contains_files_withHistory.trans (among file inside)⟩

/-! ### Stages -/

/-- One stage keeps all records in their places. -/
theorem Coherent.step (coherent : p.Coherent s) (proper : s.Proper) {stage : Audit.Stage}
    (finite : stage = .complexity → s.Finite) (ran : stage.run s p = .ok q) : q.Coherent s := by
  cases stage with
  | sources =>
    cases read : Audit.sources s.config s.root s.place with
    | error e => simp [Audit.Stage.run, read] at ran
    | ok found =>
      simp only [Audit.Stage.run, read] at ran
      obtain rfl := Except.ok.inj ran
      exact coherent.withSources proper s.config.walk.hash read
  | complexity =>
    obtain rfl := Except.ok.inj ran
    exact coherent.withComplexity (finite rfl)
  | weakness =>
    obtain rfl := Except.ok.inj ran
    rw [withMarkers_eq]
    exact coherent.counted.replaceAll (isOf_markerIssues s.place) (by decide)
      (titled_markerIssues s.place)
  | history =>
    obtain rfl := Except.ok.inj ran
    exact (coherent.withHistory proper).clear .dirtyWorktree
  | hotspots =>
    obtain rfl := Except.ok.inj ran
    rw [withHotspots_eq]
    exact coherent.scored.replaceAll (isOf_hotspots s.config.hotspots.topN) (by decide)
      (titled_hotspots s.config.hotspots.topN)

/-- Any sequence of stages keeps all records in their places. -/
theorem Coherent.run (coherent : p.Coherent s) (proper : s.Proper) {stages : List Audit.Stage}
    (finite : .complexity ∈ stages → s.Finite) : (Audit.run stages s p).project.Coherent s := by
  have onward (o : Audit.Outcome) (before : o.project.Coherent s) :
      (stages.foldl (Audit.Outcome.next s) o).project.Coherent s := by
    induction stages generalizing o with
    | nil => exact before
    | cons stage rest ih =>
      refine ih (fun later => finite (List.mem_cons_of_mem _ later)) _ ?_
      rw [Audit.Outcome.next]
      cases ran : stage.run s o.project with
      -- a stage that fails leaves the project as it was
      | error e => exact before
      | ok q => exact before.step proper (fun same => finite (same ▸ List.mem_cons_self)) ran
  exact onward ⟨p, []⟩ coherent

end Project
end RepoAudit
