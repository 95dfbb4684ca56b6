import RepoAudit.Proofs.History.Touches

/-!
# The books of a history

Files, commits, contributors and the shares of contributors in files each keep numbers of lines.
`accounts_withHistory` tells what each of them says of the commits, and that all of them add up to
the same numbers.
-/

namespace RepoAudit

open Project History

namespace History

/-! ### Files -/

/-- What a file says of the commits that touch it. -/
structure FileAccount (counts : String → Bool) (entries : List Entry) (f : File) : Prop where
  linesAdded : f.linesAdded =
    ((touching counts entries f.path).map fun e => (e.linesIn f.path).added).sum
  linesDeleted : f.linesDeleted =
    ((touching counts entries f.path).map fun e => (e.linesIn f.path).deleted).sum
  churn : f.churn = f.linesAdded + f.linesDeleted
  commitCount : f.commitCount = (touching counts entries f.path).length
  contributions : ∀ id, f.contributions.get? id =
    let own := (touching counts entries f.path).filter (·.author = id)
    if own = [] then none else some (own.map fun e => (e.linesIn f.path).added).sum

theorem get?_contributions (own : List (String × Lines)) (id : String) :
    (contributions own).get? id =
      if own.filter (·.1 = id) = [] then none
      else some ((own.filter (·.1 = id)).map (·.2.added)).sum := by
  have gathered := SortedMap.get?_gathered Prod.fst
    (fun (o : String × Lines) before => before.getD 0 + o.2.added) own ∅ id
  rw [SortedMap.get?_empty, SortedMap.foldl_some_add] at gathered
  exact gathered

theorem fileAccount_credit (threshold : Float) (counts : String → Bool) (entries : List Entry)
    {id : String} {f : File} (keyed : id = fileId f.path) :
    FileAccount counts entries (credit threshold (entries.map (touch counts)) id f) := by
  subst keyed
  have own := own_touches counts entries f.path
  constructor
  case linesAdded | linesDeleted =>
    simp only [credit, own, Lines.added_sum, Lines.deleted_sum, List.map_map]
    rfl
  case churn => rfl
  case commitCount =>
    simp only [credit, own, List.length_map]
  case contributions =>
    intro id
    simp only [credit, own, get?_contributions, List.filter_map, List.map_map,
      List.map_eq_nil_iff, Function.comp_def]

/-- The shares of the contributors in a file make up what was added to it. -/
theorem FileAccount.sum_contributions {counts : String → Bool} {entries : List Entry} {f : File}
    (account : FileAccount counts entries f) : f.contributions.values.sum = f.linesAdded := by
  have shares := SortedMap.sum_gathered (m := f.contributions) Entry.author
    (touching counts entries f.path) id (fun e => (e.linesIn f.path).added) ?_ ?_
  · rw [List.map_id] at shares
    rw [shares, account.linesAdded]
  · intro e member
    refine SortedMap.mem_keys.mpr ⟨_, (account.contributions e.author).trans (if_neg ?_)⟩
    exact List.ne_nil_of_mem (List.mem_filter.mpr ⟨member, decide_eq_true rfl⟩)
  · intro id lines share
    rw [account.contributions] at share
    dsimp only at share
    split at share
    · cases share
    · exact (Option.some.inj share).symm

/-! ### Commits -/

/-- What the record of a commit says of it. -/
structure CommitAccount (counts : String → Bool) (e : Entry) (c : Commit) : Prop where
  author : c.author = e.author
  files : c.files = (e.touched counts).toList.map fileId
  linesAdded : c.linesAdded = (e.total counts).added
  linesDeleted : c.linesDeleted = (e.total counts).deleted

theorem commitAccount_touch (counts : String → Bool) (e : Entry) :
    CommitAccount counts e (touch counts e).commit where
  author := by rw [Touch.commit, author_touch]
  files := by rw [Touch.commit, keys_touch]
  linesAdded := by rw [Touch.commit, total_touch]
  linesDeleted := by rw [Touch.commit, total_touch]

theorem commitId_injective {sha sha' : String} (same : commitId sha = commitId sha') :
    sha = sha' :=
  (String.append_right_inj _).mp same

/-- The records of commits with different hashes, in some order. -/
theorem commits_perm (counts : String → Bool) {entries : List Entry}
    (distinct : (entries.map (·.sha)).Nodup) :
    (SortedMap.ofList ((entries.map (touch counts)).map fun t => (t.commit.id, t.commit))).entries.Perm
      (entries.map fun e => (commitId e.sha, (touch counts e).commit)) := by
  rw [List.map_map]
  refine SortedMap.entries_ofList_perm ?_
  have ids : ((entries.map fun e => (commitId e.sha, (touch counts e).commit)).map (·.1)) =
      (entries.map (·.sha)).map commitId := by simp
  exact ids ▸ distinct.map fun _ _ => commitId_injective

/-! ### Contributors -/

/-- What a contributor's record says of the commits of this contributor. -/
structure PersonAccount (counts : String → Bool) (entries : List Entry) (id : String)
    (person : Person) : Prop where
  commits : person.commits = (entries.filter (·.author = id)).length
  linesAdded : person.linesAdded =
    ((entries.filter (·.author = id)).map fun e => (e.total counts).added).sum
  linesDeleted : person.linesDeleted =
    ((entries.filter (·.author = id)).map fun e => (e.total counts).deleted).sum

/-- The record of whoever made a commit and all others of a list. -/
def personOf (counts : String → Bool) (first : Entry) (own : List Entry) : Person where
  id := first.author
  name := first.name
  email := first.email
  commits := own.length
  linesAdded := (own.map fun e => (e.total counts).added).sum
  linesDeleted := (own.map fun e => (e.total counts).deleted).sum

theorem foldl_addCommit (counts : String → Bool) (own : List Entry) (person : Person) :
    (own.map (touch counts)).foldl (fun before t => some (addCommit t before)) (some person) =
      some { person with
        commits := person.commits + own.length
        linesAdded := person.linesAdded + (own.map fun e => (e.total counts).added).sum
        linesDeleted := person.linesDeleted + (own.map fun e => (e.total counts).deleted).sum } := by
  induction own generalizing person with
  | nil => rfl
  | cons e rest ih =>
    rw [List.map_cons, List.foldl_cons, ih]
    simp only [addCommit, Option.getD_some, total_touch, List.map_cons, List.sum_cons,
      List.length_cons, Nat.add_assoc, Nat.add_comm 1]

/-- A contributor is known by the name and address of the first commit. -/
theorem get?_people (counts : String → Bool) (entries : List Entry) (id : String) :
    (people (entries.map (touch counts))).get? id =
      let own := entries.filter (·.author = id)
      own.head?.map fun first => personOf counts first own := by
  rw [people, SortedMap.get?_gathered Touch.author addCommit, SortedMap.get?_empty,
    List.filter_map]
  simp only [Function.comp_def, author_touch]
  cases entries.filter (·.author = id) with
  | nil => rfl
  | cons first rest =>
    rw [List.map_cons, List.foldl_cons, foldl_addCommit]
    simp only [addCommit, Option.getD_none, total_touch, author_touch, entry_touch, personOf,
      List.head?_cons, Option.map_some, List.map_cons, List.sum_cons, List.length_cons,
      Nat.zero_add, Nat.add_comm 1]

theorem get?_withOwned (files : List File) (counts : String → Bool) (entries : List Entry)
    (id : String) : (withOwned files (people (entries.map (touch counts)))).get? id =
      let own := entries.filter (·.author = id)
      own.head?.map fun first => { personOf counts first own with
        owns := .ofList ((files.filter (·.owner == some id)).map (·.id)) } := by
  rw [withOwned, SortedMap.get?_mapValues, get?_people, Option.map_map]
  rfl

theorem exists_person_iff (files : List File) (counts : String → Bool) (entries : List Entry)
    (id : String) : (∃ person, (withOwned files (people (entries.map (touch counts)))).get? id =
      some person) ↔ ∃ e ∈ entries, e.author = id := by
  rw [← Option.isSome_iff_exists, get?_withOwned, Option.isSome_map]
  cases own : entries.filter (·.author = id) with
  | nil => simpa [List.filter_eq_nil_iff] using own
  | cons first rest =>
    have member : first ∈ entries.filter (·.author = id) := own ▸ List.mem_cons_self
    simpa using ⟨first, by simpa using List.mem_filter.mp member⟩

theorem personAccount_withOwned {files : List File} {counts : String → Bool}
    {entries : List Entry} {id : String} {person : Person}
    (known : (withOwned files (people (entries.map (touch counts)))).get? id = some person) :
    PersonAccount counts entries id person := by
  rw [get?_withOwned] at known
  obtain ⟨first, -, rfl⟩ := Option.map_eq_some_iff.mp known
  exact ⟨rfl, rfl, rfl⟩

end History

namespace Project

/-! ### Sums over files and over commits -/

/-- Files are stored under the identifiers of their paths. -/
def KeyedByPath (p : Project) : Prop := ∀ e ∈ p.files.entries, e.1 = fileId e.2.path

instance (p : Project) : Decidable p.KeyedByPath := inferInstanceAs (Decidable (∀ _ ∈ _, _))

theorem KeyedByPath.nodup_paths {p : Project} (keyed : p.KeyedByPath) :
    (p.files.values.map (·.path)).Nodup := by
  have ids : ((p.files.values.map (·.path)).map fileId).Nodup := by
    rw [List.map_map]
    exact SortedMap.nodup_values fun id f stored =>
      (keyed (id, f) ((SortedMap.mem_entries _).mpr stored)).symm
  exact ids.of_map _

variable {p : Project} {config : Config}

theorem sum_touched (keyed : p.KeyedByPath) (e : Entry) (x : String → Nat) :
    (p.files.values.map fun f =>
        if (e.touched (p.counts config)).contains f.path then x f.path else 0).sum =
      ((e.touched (p.counts config)).toList.map x).sum := by
  -- a touched path counts, so some file has it, and only one
  have same : ((p.files.values.map (·.path)).filter
      (e.touched (p.counts config)).contains).Perm (e.touched (p.counts config)).toList := by
    refine (List.perm_ext_iff_of_nodup (keyed.nodup_paths.filter _)
      (SortedSet.nodup_toList _)).mpr fun path => ?_
    rw [List.mem_filter, SortedSet.contains_iff, SortedSet.mem_toList]
    refine ⟨And.right, fun touched => ⟨?_, touched⟩⟩
    obtain ⟨f, member, rfl⟩ := counts_of_mem (Entry.mem_touched.mp touched).1
    exact List.mem_map_of_mem member
  rw [← (same.map x).sum_eq, List.filter_map, List.map_map]
  exact (List.sum_map_ite _ _ _ _).trans (by simp [Function.comp_def])

/-- Summing up the commits of each file and then the files is summing up the files of each commit
and then the commits. -/
theorem sum_files_eq_sum_commits (keyed : p.KeyedByPath) (entries : List Entry)
    (x : Entry → String → Nat) :
    (p.files.values.map fun f =>
        ((touching (p.counts config) entries f.path).map fun e => x e f.path).sum).sum =
      (entries.map fun e => ((e.touched (p.counts config)).toList.map (x e)).sum).sum := by
  induction entries with
  | nil => simp [touching]
  | cons e rest ih =>
    have step (f : File) :
        ((touching (p.counts config) (e :: rest) f.path).map fun e => x e f.path).sum =
          (if (e.touched (p.counts config)).contains f.path then x e f.path else 0) +
            ((touching (p.counts config) rest f.path).map fun e => x e f.path).sum := by
      rw [touching, List.filter_cons]
      split <;> simp [touching]
    -- the first commit contributes the same to both sums, since all that it touches are files
    simp only [step]
    rw [List.sum_map_add, sum_touched keyed, ih, List.map_cons, List.sum_cons]

/-! ### The books -/

/-- What a project says of a history, and that its sums agree. -/
structure Accounts (p : Project) (config : Config) (entries : List Entry) (q : Project) : Prop where
  files : ∀ id f, p.files.get? id = some f → ∃ g, q.files.get? id = some g ∧ g.path = f.path ∧
    FileAccount (p.counts config) entries g
  sameFiles : q.files.keys = p.files.keys
  commits : ∀ e ∈ entries, ∃ c, q.commits.get? (commitId e.sha) = some c ∧
    CommitAccount (p.counts config) e c
  noOtherCommits : q.commits.keys.Perm (entries.map fun e => commitId e.sha)
  contributors : ∀ id, (∃ person, q.contributors.get? id = some person) ↔
    ∃ e ∈ entries, e.author = id
  contributor : ∀ id person, q.contributors.get? id = some person →
    PersonAccount (p.counts config) entries id person
  addedInCommits : (q.commits.values.map (·.linesAdded)).sum =
    (q.files.values.map (·.linesAdded)).sum
  addedByContributors : (q.contributors.values.map (·.linesAdded)).sum =
    (q.files.values.map (·.linesAdded)).sum
  addedInShares : (q.files.values.map (·.contributions.values.sum)).sum =
    (q.files.values.map (·.linesAdded)).sum
  deletedInCommits : (q.commits.values.map (·.linesDeleted)).sum =
    (q.files.values.map (·.linesDeleted)).sum
  deletedByContributors : (q.contributors.values.map (·.linesDeleted)).sum =
    (q.files.values.map (·.linesDeleted)).sum

section Sums

variable {entries : List Entry}

theorem fileAccount_withHistory (keyed : p.KeyedByPath) {id : String} {f : File}
    (stored : p.files.get? id = some f) : ∃ g, (p.withHistory config entries).files.get? id = some g ∧
      g.path = f.path ∧ FileAccount (p.counts config) entries g := by
  have sameId := keyed (id, f) ((SortedMap.mem_entries _).mpr stored)
  refine ⟨credit config.history.ownershipThreshold (p.touches config entries) id f, ?_, rfl,
    fileAccount_credit _ _ _ sameId⟩
  rw [withHistory_eq, SortedMap.get?_mapValues, stored]
  rfl

theorem sum_files (keyed : p.KeyedByPath) (g : File → Nat) (x : Lines → Nat)
    (each : ∀ f, FileAccount (p.counts config) entries f →
      g f = ((touching (p.counts config) entries f.path).map fun e => x (e.linesIn f.path)).sum) :
    ((p.withHistory config entries).files.values.map g).sum =
      (entries.map fun e => ((e.touched (p.counts config)).toList.map fun path =>
        x (e.linesIn path)).sum).sum := by
  rw [← sum_files_eq_sum_commits keyed entries fun e path => x (e.linesIn path), withHistory_eq,
    SortedMap.values_mapValues, List.map_map, SortedMap.values, List.map_map]
  refine congrArg List.sum (List.map_congr_left fun e stored => ?_)
  exact each _ (fileAccount_credit _ _ _ (keyed e stored))

theorem commits_withHistory_perm (p : Project) (config : Config)
    (distinct : (entries.map (·.sha)).Nodup) :
    (p.withHistory config entries).commits.entries.Perm
      (entries.map fun e => (commitId e.sha, (touch (p.counts config) e).commit)) := by
  rw [withHistory_eq]
  exact commits_perm (p.counts config) distinct

theorem sum_commits (distinct : (entries.map (·.sha)).Nodup) (g : Commit → Nat) (x : Entry → Nat)
    (each : ∀ e c, CommitAccount (p.counts config) e c → g c = x e) :
    ((p.withHistory config entries).commits.values.map g).sum = (entries.map x).sum := by
  have perm := (commits_withHistory_perm p config distinct).map (g ·.2)
  rw [SortedMap.values, List.map_map]
  refine perm.sum_eq.trans (congrArg List.sum ?_)
  rw [List.map_map]
  exact List.map_congr_left fun e _ => each e _ (commitAccount_touch _ e)

theorem sum_contributors (g : Person → Nat) (x : Entry → Nat)
    (each : ∀ id person, PersonAccount (p.counts config) entries id person →
      g person = ((entries.filter (·.author = id)).map x).sum) :
    ((p.withHistory config entries).contributors.values.map g).sum = (entries.map x).sum := by
  rw [withHistory_eq]
  refine SortedMap.sum_gathered Entry.author entries g x (fun e member => ?_) fun id person known =>
    each id person (personAccount_withOwned known)
  exact SortedMap.mem_keys.mpr ((exists_person_iff _ _ _ _).mpr ⟨e, member, rfl⟩)

end Sums

/-- After a history a project tells of its commits what they are, and all sums agree. -/
theorem accounts_withHistory (p : Project) (config : Config) (entries : List Entry)
    (keyed : p.KeyedByPath) (distinct : (entries.map (·.sha)).Nodup) :
    Accounts p config entries (p.withHistory config entries) := by
  have added : ((p.withHistory config entries).files.values.map (·.linesAdded)).sum =
      (entries.map fun e => (e.total (p.counts config)).added).sum := by
    simp only [Entry.total_added]
    exact sum_files keyed _ Lines.added fun f account => account.linesAdded
  have deleted : ((p.withHistory config entries).files.values.map (·.linesDeleted)).sum =
      (entries.map fun e => (e.total (p.counts config)).deleted).sum := by
    simp only [Entry.total_deleted]
    exact sum_files keyed _ Lines.deleted fun f account => account.linesDeleted
  have perm := commits_withHistory_perm p config distinct
  constructor
  case files => exact fun id f stored => fileAccount_withHistory keyed stored
  case sameFiles =>
    rw [withHistory_eq]
    exact List.map_map
  case commits =>
    intro e member
    refine ⟨_, ?_, commitAccount_touch (p.counts config) e⟩
    exact (SortedMap.mem_entries _).mp (perm.mem_iff.mpr (List.mem_map_of_mem member))
  case noOtherCommits =>
    have ids := perm.map Prod.fst
    rwa [List.map_map] at ids
  case contributors =>
    intro id
    rw [withHistory_eq]
    exact exists_person_iff _ _ _ id
  case contributor =>
    intro id person known
    rw [withHistory_eq] at known
    exact personAccount_withOwned known
  case addedInCommits =>
    rw [added, sum_commits distinct _ _ fun e c account => account.linesAdded]
  case addedByContributors =>
    rw [added, sum_contributors _ _ fun id person account => account.linesAdded]
  case addedInShares =>
    rw [added, sum_files keyed _ Lines.added fun f account =>
      account.sum_contributions.trans account.linesAdded]
    simp only [← Entry.total_added]
  case deletedInCommits =>
    rw [deleted, sum_commits distinct _ _ fun e c account => account.linesDeleted]
  case deletedByContributors =>
    rw [deleted, sum_contributors _ _ fun id person account => account.linesDeleted]

/-- Two files that count and one that is excluded. -/
def ledger : Project where
  files := .ofList (["a.py", "b.py", "dist/c.js"].map fun path => (fileId path, .ofPath path))

/-- Two commits of one author, who writes the address in two ways. One commit changes a file
twice. -/
def ledgerCommits : List Entry :=
  [{ sha := "1", name := "Ann", email := "ann@x.io", time := ⟨0, 0⟩, message := "begin"
     changes := [⟨"a.py", 10, 0⟩, ⟨"dist/c.js", 3, 0⟩, ⟨"b.py", 5, 0⟩, ⟨"a.py", 1, 4⟩] },
   { sha := "2", name := "Ann", email := "ANN@x.io", time := ⟨60, 0⟩, message := "go on"
     changes := [⟨"a.py", 2, 2⟩, ⟨"notes.txt", 7, 0⟩] }]

theorem accounts_of_ledger : ledger.KeyedByPath ∧ (ledgerCommits.map (·.sha)).Nodup ∧
    Accounts ledger {} ledgerCommits (ledger.withHistory {} ledgerCommits) ∧
    (ledgerCommits.map fun e => e.total (ledger.counts {})) = [⟨16, 4⟩, ⟨2, 2⟩] := by
  have keyed : ledger.KeyedByPath := by decide +kernel
  have distinct : (ledgerCommits.map (·.sha)).Nodup := by decide
  exact ⟨keyed, distinct, accounts_withHistory ledger {} ledgerCommits keyed distinct,
    by decide +kernel⟩

end Project

end RepoAudit
