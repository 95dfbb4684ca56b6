import RepoAudit.Proofs.History.Coupling

/-!
# Histories in another order

A history replaces what an earlier one said, and the order of its commits does not matter but for
the name and address of a contributor, which are those of the first commit. `withHistory_order` says
both at once.
-/

namespace RepoAudit

open Project History

namespace Project

/-! ### Projects without their history -/

def File.withoutHistory (f : File) : File :=
  { f with
    churn := 0
    linesAdded := 0
    linesDeleted := 0
    commitCount := 0
    contributions := ∅
    owner := none }

/-- A project without anything that a history says of it. -/
def withoutHistory (p : Project) : Project :=
  { p with
    files := p.files.mapValues fun _ f => f.withoutHistory
    commits := ∅
    contributors := ∅
    coupling := ∅ }

theorem counts_withoutHistory (p : Project) (config : Config) :
    p.withoutHistory.counts config = p.counts config := by
  funext path
  have paths : p.withoutHistory.files.values.any (·.path == path) =
      p.files.values.any (·.path == path) := by
    rw [withoutHistory, SortedMap.values_mapValues, List.any_map, SortedMap.values, List.any_map]
    rfl
  rw [counts, counts, paths]

/-- What an earlier history said does not matter. -/
theorem withHistory_withoutHistory (p : Project) (config : Config) (entries : List Entry) :
    p.withoutHistory.withHistory config entries = p.withHistory config entries := by
  have touched : p.withoutHistory.touches config entries = p.touches config entries := by
    rw [touches, touches, counts_withoutHistory]
  have files (ts : List Touch) :
      p.withoutHistory.files.mapValues (credit config.history.ownershipThreshold ts) =
        p.files.mapValues (credit config.history.ownershipThreshold ts) :=
    SortedMap.mapValues_mapValues ..
  rw [withHistory_eq, withHistory_eq, touched]
  dsimp only
  rw [files]
  rfl

theorem withoutHistory_withHistory (p : Project) (config : Config) (entries : List Entry) :
    (p.withHistory config entries).withoutHistory = p.withoutHistory := by
  have files (ts : List Touch) :
      (p.files.mapValues (credit config.history.ownershipThreshold ts)).mapValues
        (fun _ f => f.withoutHistory) = p.files.mapValues fun _ f => f.withoutHistory :=
    SortedMap.mapValues_mapValues ..
  rw [withHistory_eq, withoutHistory]
  dsimp only
  rw [files]
  rfl

end Project

namespace History

/-! ### Commits in another order -/

theorem contributions_perm {own own' : List (String × Lines)} (perm : own.Perm own') :
    contributions own = contributions own' := by
  refine SortedMap.ext_get? fun id => ?_
  have kept := perm.filter (·.1 = id)
  rw [get?_contributions, get?_contributions, (kept.map (·.2.added)).sum_eq]
  refine if_congr ⟨fun empty => ?_, fun empty => ?_⟩ rfl rfl
  · exact List.nil_perm.mp (empty ▸ kept)
  · exact List.perm_nil.mp (empty ▸ kept)

theorem credit_perm (threshold : Float) {ts ts' : List Touch} (perm : ts.Perm ts') (id : String)
    (f : File) : credit threshold ts id f = credit threshold ts' id f := by
  have own := perm.filterMap fun t => (t.linesOf? id).map fun lines => (t.author, lines)
  simp only [credit, Lines.sum_eq, (own.map (·.2)).sum_eq, own.length_eq, contributions_perm own]

variable (counts : String → Bool) {entries entries' : List Entry}

theorem coupling_perm (perm : entries.Perm entries') :
    coupling (entries.map (touch counts)) = coupling (entries'.map (touch counts)) := by
  have found : (pairs counts entries).Perm (pairs counts entries') :=
    (perm.map (touch counts)).flatMap_right _
  refine SortedMap.ext_get? fun pair => ?_
  rw [get?_coupling, get?_coupling, found.countP_eq]

/-- A contributor without name and address. -/
def anonymous (person : Person) : Person := { person with name := "", email := "" }

theorem withOwned_perm (files : List File) (perm : entries.Perm entries') :
    (withOwned files (people (entries.map (touch counts)))).mapValues (fun _ => anonymous) =
      (withOwned files (people (entries'.map (touch counts)))).mapValues fun _ => anonymous := by
  refine SortedMap.ext_get? fun id => ?_
  have own := perm.filter (·.author = id)
  have byAuthor {es : List Entry} {first : Entry} {rest : List Entry}
      (split : es.filter (·.author = id) = first :: rest) : first.author = id := by
    have member : first ∈ es.filter (·.author = id) := split ▸ List.mem_cons_self
    exact of_decide_eq_true (List.mem_filter.mp member).2
  rw [SortedMap.get?_mapValues, SortedMap.get?_mapValues, get?_withOwned, get?_withOwned]
  dsimp only
  have length := own.length_eq
  have added := (own.map fun e => (e.total counts).added).sum_eq
  have deleted := (own.map fun e => (e.total counts).deleted).sum_eq
  -- the first commit of an author may be another one, but the number and the sums stay
  cases split : entries.filter (·.author = id) with
  | nil =>
    rw [split] at own
    rw [List.nil_perm.mp own]
  | cons first rest =>
    cases split' : entries'.filter (·.author = id) with
    | nil =>
      rw [split, split'] at length
      cases length
    | cons first' rest' =>
      rw [split, split'] at length added deleted
      simp only [List.head?_cons, Option.map_some, anonymous, personOf, byAuthor split,
        byAuthor split', length, added, deleted]

theorem name_withOwned {files : List File} {id : String} {person : Person}
    (known : (withOwned files (people (entries.map (touch counts)))).get? id = some person) :
    ∃ e, entries.find? (·.author = id) = some e ∧ person.name = e.name ∧ person.email = e.email := by
  rw [get?_withOwned] at known
  obtain ⟨first, head, rfl⟩ := Option.map_eq_some_iff.mp known
  rw [List.head?_filter] at head
  exact ⟨first, head, rfl, rfl⟩

end History

namespace Project

/-- A project without the names and addresses of its contributors. -/
def withoutNames (p : Project) : Project :=
  { p with contributors := p.contributors.mapValues fun _ => anonymous }

theorem withHistory_perm (p : Project) (config : Config) {entries entries' : List Entry}
    (perm : entries.Perm entries') (distinct : (entries.map (·.sha)).Nodup) :
    (p.withHistory config entries).withoutNames = (p.withHistory config entries').withoutNames := by
  have touched : (p.touches config entries).Perm (p.touches config entries') := perm.map _
  have files : p.files.mapValues (credit config.history.ownershipThreshold
      (p.touches config entries)) = p.files.mapValues (credit config.history.ownershipThreshold
      (p.touches config entries')) :=
    congrArg p.files.mapValues (funext fun id => funext fun f => credit_perm _ touched id f)
  have ids : ((p.touches config entries).map fun t => (t.commit.id, t.commit)).map (·.1) =
      (entries.map (·.sha)).map commitId := by
    simp [touches, Touch.commit]
  have commits := SortedMap.ofList_perm (ids ▸ distinct.map fun _ _ => commitId_injective)
    (touched.map fun t => (t.commit.id, t.commit))
  have people (fs : List File) := withOwned_perm (p.counts config) fs perm
  have pairs := coupling_perm (p.counts config) perm
  rw [withHistory_eq, withHistory_eq, withoutNames, withoutNames]
  dsimp only
  rw [files, commits, touches, touches, people, pairs]

theorem name_withHistory {p : Project} {config : Config} {entries : List Entry} {id : String}
    {person : Person} (known : (p.withHistory config entries).contributors.get? id = some person) :
    ∃ e, entries.find? (·.author = id) = some e ∧ person.name = e.name ∧ person.email = e.email := by
  rw [withHistory_eq] at known
  exact name_withOwned (p.counts config) known

/-- Whatever was said of the history of a project before, and in whatever order the commits come,
the result is the same. Only the names and addresses of contributors are those of the first commit.
To add the same history again changes nothing at all. -/
theorem withHistory_order (p q : Project) (config : Config) (entries entries' : List Entry)
    (same : p.withoutHistory = q.withoutHistory) (perm : entries.Perm entries')
    (distinct : (entries.map (·.sha)).Nodup) :
    let a := p.withHistory config entries
    let b := q.withHistory config entries'
    a.withoutNames = b.withoutNames ∧
    (∀ id person, a.contributors.get? id = some person → ∃ e,
      entries.find? (·.author = id) = some e ∧ person.name = e.name ∧ person.email = e.email) ∧
    (∀ id person, b.contributors.get? id = some person → ∃ e,
      entries'.find? (·.author = id) = some e ∧ person.name = e.name ∧ person.email = e.email) ∧
    a.withHistory config entries = a := by
  intro a b
  refine ⟨?_, fun _ _ => name_withHistory, fun _ _ => name_withHistory, ?_⟩
  · change (p.withHistory config entries).withoutNames = (q.withHistory config entries').withoutNames
    rw [withHistory_perm p config perm distinct, ← withHistory_withoutHistory, same,
      withHistory_withoutHistory]
  · change (p.withHistory config entries).withHistory config entries = p.withHistory config entries
    rw [← withHistory_withoutHistory, withoutHistory_withHistory, withHistory_withoutHistory]

/-- The files of the ledger with what an earlier run said of one commit. -/
def staleLedger : Project := ledger.withHistory {} (ledgerCommits.take 1)

theorem withHistory_order_of_ledger : ledger.withoutHistory = staleLedger.withoutHistory ∧
    ledgerCommits.Perm ledgerCommits.reverse ∧ (ledgerCommits.map (·.sha)).Nodup ∧
    (ledger.withHistory {} ledgerCommits).withoutNames =
      (staleLedger.withHistory {} ledgerCommits.reverse).withoutNames := by
  have same : ledger.withoutHistory = staleLedger.withoutHistory :=
    (withoutHistory_withHistory ledger {} (ledgerCommits.take 1)).symm
  have perm : ledgerCommits.Perm ledgerCommits.reverse := (List.reverse_perm _).symm
  have distinct : (ledgerCommits.map (·.sha)).Nodup := by decide
  exact ⟨same, perm, distinct,
    (withHistory_order ledger staleLedger {} ledgerCommits _ same perm distinct).1⟩

end Project
end RepoAudit
