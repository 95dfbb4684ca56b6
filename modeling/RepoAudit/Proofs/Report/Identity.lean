import RepoAudit.Proofs.Audit.Coherence
import RepoAudit.Proofs.Report.Records

/-!
# Different records, different nodes

The identifier of a record tells its kind, and records of one kind are stored under their
identifiers. So no two records of a coherent project have one node, as long as the hashes of its
pairs of files are different.
-/

namespace RepoAudit.Report

open Project

/-! ### Kinds -/

/-- The kind that the identifier of a record tells. -/
def Record.kind : Record → String
  | project _ => "project"
  | file _ => "file"
  | group _ => "module"
  | person _ => "person"
  | commit _ => "commit"
  | issue _ => "issue"
  | coupling _ _ => "coupling"
  | dependency _ => "dependency"

theorem Record.kind_plain (r : Record) : '/' ∉ r.kind.toList := by
  cases r <;> simp [Record.kind]

theorem idOf_iff {kind mark id : String} (marked : mark = "repo:" ++ (kind ++ "/")) :
    IdOf kind id ↔ ∃ key, id = mark ++ key := by
  simp only [IdOf, marked, String.append_assoc]

theorem idOf_project (name : String) : IdOf "project" (projectId name) :=
  (idOf_iff rfl).mpr ⟨_, rfl⟩

theorem idOf_file (path : String) : IdOf "file" (fileId path) := (idOf_iff rfl).mpr ⟨_, rfl⟩

theorem idOf_module (name : String) : IdOf "module" (moduleId name) := (idOf_iff rfl).mpr ⟨_, rfl⟩

theorem idOf_commit (sha : String) : IdOf "commit" (commitId sha) := (idOf_iff rfl).mpr ⟨_, rfl⟩

theorem idOf_person (name email : String) : IdOf "person" (personId name email) := by
  refine (idOf_iff rfl).mpr ?_
  unfold personId
  dsimp only
  split
  · exact ⟨"name-" ++ _, by rw [← String.append_assoc]; rfl⟩
  · exact ⟨_, rfl⟩

theorem idOf_issue (kind : IssueKind) (key : String) : IdOf "issue" (issueId kind key) := by
  refine (idOf_iff rfl).mpr ⟨kind.name ++ ("/" ++ key), ?_⟩
  simp [issueId, toString, String.append_assoc]

theorem idOf_coupling (pair : UnorderedPair) : IdOf "coupling" (couplingId pair) :=
  (idOf_iff rfl).mpr ⟨_, rfl⟩

theorem idOf_dependency (d : Dependency) : IdOf "dependency" (dependencyId d) :=
  (idOf_iff rfl).mpr ⟨_, rfl⟩

/-! ### Records of a coherent project -/

/-- The text of which the identifier of a pair has the hash. -/
def pairText (pair : UnorderedPair) : String := s!"{pair.first}|{pair.second}"

/-- Different texts of pairs of files have different hashes. -/
def HashesApart (p : Project) : Prop :=
  ∀ pair ∈ p.coupling.keys, ∀ pair' ∈ p.coupling.keys,
    Digest.shortHash (pairText pair) = Digest.shortHash (pairText pair') →
      pairText pair = pairText pair'

instance (p : Project) : Decidable (HashesApart p) := inferInstanceAs (Decidable (∀ _ ∈ _, _))

/-- A record that is stored under its identifier. -/
def Record.Stored (p : Project) : Record → Prop
  | project q => q = p
  | file f => p.files.get? f.id = some f
  | group m => p.modules.get? m.id = some m
  | person c => p.contributors.get? c.id = some c
  | commit c => p.commits.get? c.id = some c
  | issue i => p.issues.get? i.id = some i
  | coupling pair n => p.coupling.get? pair = some n
  | dependency d => d ∈ p.dependencies

theorem Record.Stored.mem {p : Project} {r : Record} (stored : r.Stored p) : r ∈ records p := by
  cases r with
  | project q => simpa [records, Record.Stored, Record.ofEntry] using stored
  | coupling pair n =>
    simpa [records, Record.Stored, Record.ofEntry, SortedMap.mem_entries] using stored
  | dependency d => simpa [records, Record.Stored, Record.ofEntry] using stored
  | _ => simpa [records, SortedMap.mem_values, Record.ofEntry] using ⟨_, stored⟩

section Records

variable {p : Project} {s : Audit.Subject} (coherent : p.Coherent s) {r r' : Record}
include coherent

theorem stored_of_mem (listed : r ∈ records p) : r.Stored p := by
  cases r with
  | project q => simpa [records, Record.Stored, Record.ofEntry] using listed
  | file f =>
    obtain ⟨id, stored⟩ : ∃ id, p.files.get? id = some f := by
      simpa [records, SortedMap.mem_values, Record.ofEntry] using listed
    rwa [← (coherent.files id f stored).1] at stored
  | group m =>
    obtain ⟨id, stored⟩ : ∃ id, p.modules.get? id = some m := by
      simpa [records, SortedMap.mem_values, Record.ofEntry] using listed
    rwa [← (coherent.modules id m stored).stored] at stored
  | person c =>
    obtain ⟨id, stored⟩ : ∃ id, p.contributors.get? id = some c := by
      simpa [records, SortedMap.mem_values, Record.ofEntry] using listed
    rwa [← (coherent.contributors id c stored).stored] at stored
  | commit c =>
    obtain ⟨id, stored⟩ : ∃ id, p.commits.get? id = some c := by
      simpa [records, SortedMap.mem_values, Record.ofEntry] using listed
    rwa [← (coherent.commits id c stored).stored] at stored
  | issue i =>
    obtain ⟨id, stored⟩ : ∃ id, p.issues.get? id = some i := by
      simpa [records, SortedMap.mem_values, Record.ofEntry] using listed
    rwa [← (coherent.issues id i stored).1] at stored
  | coupling pair n =>
    simpa [records, Record.Stored, Record.ofEntry, SortedMap.mem_entries] using listed
  | dependency d => simpa [records, Record.Stored, Record.ofEntry] using listed

theorem idOf_stored (named : IdOf "project" p.id) (stored : r.Stored p) : IdOf r.kind r.id := by
  cases r with
  | project q =>
    obtain rfl : q = p := stored
    exact named
  | file f =>
    change IdOf _ f.id
    rw [(coherent.files _ f stored).2]
    exact idOf_file f.path
  | group m =>
    change IdOf _ m.id
    rw [(coherent.modules _ m stored).named]
    exact idOf_module m.name
  | person c =>
    obtain ⟨name, email, same⟩ := (coherent.contributors _ c stored).named
    change IdOf _ c.id
    rw [same]
    exact idOf_person name email
  | commit c =>
    change IdOf _ c.id
    rw [(coherent.commits _ c stored).named]
    exact idOf_commit c.sha
  | issue i =>
    obtain ⟨key, same⟩ := (coherent.issues _ i stored).2
    change IdOf _ i.id
    rw [same]
    exact idOf_issue i.kind key
  | coupling pair n => exact idOf_coupling pair
  | dependency d => exact idOf_dependency d

/-- The identifier of a file is free of the mark between those of a pair. -/
theorem bar_not_mem_id (proper : s.Proper) {id : String} (there : p.files.contains id = true) :
    '|' ∉ id.toList := by
  obtain ⟨f, stored⟩ := Option.isSome_iff_exists.mp there
  obtain ⟨t, member, path⟩ := (coherent.inPlace id f stored).text
  obtain ⟨atId, named⟩ := coherent.files id f stored
  rw [← atId, named, fileId, String.toList_append, List.mem_append, path]
  exact not_or.mpr ⟨by decide, (proper.paths t member).2⟩

theorem eq_of_pairText (proper : s.Proper) {pair pair' : UnorderedPair} {n n' : Nat}
    (stored : p.coupling.get? pair = some n) (stored' : p.coupling.get? pair' = some n')
    (same : pairText pair = pairText pair') : pair = pair' := by
  have first := bar_not_mem_id coherent proper (coherent.coupling pair n stored).first
  have first' := bar_not_mem_id coherent proper (coherent.coupling pair' n' stored').first
  simp only [pairText, toString, String.append_assoc] at same
  obtain ⟨firsts, seconds⟩ := eq_of_joined rfl first first' same
  cases pair
  cases pair'
  simp_all

omit coherent in
theorem eq_of_get? {α : Type} {m : SortedMap String α} {id id' : String} {a a' : α}
    (stored : m.get? id = some a) (stored' : m.get? id' = some a') (same : id = id') : a = a' :=
  Option.some.inj (stored.symm.trans (same ▸ stored'))

/-- No two records of a coherent project have one node, imports apart. -/
theorem distinct_of_coherent (proper : s.Proper) (named : IdOf "project" p.id)
    (apart : HashesApart p) : Distinct p := by
  intro r listed r' listed' known same
  replace listed := stored_of_mem coherent listed
  replace listed' := stored_of_mem coherent listed'
  obtain ⟨kinds, ids⟩ := (idOf_stored coherent named listed).of_node
    (idOf_stored coherent named listed') r.kind_plain r'.kind_plain same
  -- records of one kind are stored in one map, and there under their identifiers
  cases r with
  | project q =>
    cases r' with
    | project q' => rw [show q = p from listed, show q' = p from listed']
    | _ => simp [Record.kind] at kinds
  | file f =>
    cases r' with
    | file f' => rw [eq_of_get? listed listed' ids]
    | _ => simp [Record.kind] at kinds
  | group m =>
    cases r' with
    | group m' => rw [eq_of_get? listed listed' ids]
    | _ => simp [Record.kind] at kinds
  | person c =>
    cases r' with
    | person c' => rw [eq_of_get? listed listed' ids]
    | _ => simp [Record.kind] at kinds
  | commit c =>
    cases r' with
    | commit c' => rw [eq_of_get? listed listed' ids]
    | _ => simp [Record.kind] at kinds
  | issue i =>
    cases r' with
    | issue i' => rw [eq_of_get? listed listed' ids]
    | _ => simp [Record.kind] at kinds
  | coupling pair n =>
    cases r' with
    | coupling pair' n' =>
      have hashes : Digest.shortHash (pairText pair) = Digest.shortHash (pairText pair') :=
        (String.append_right_inj _).mp ids
      have texts := apart pair (SortedMap.mem_keys.mpr ⟨n, listed⟩) pair'
        (SortedMap.mem_keys.mpr ⟨n', listed'⟩) hashes
      obtain rfl := eq_of_pairText coherent proper listed listed' texts
      rw [Option.some.inj (Eq.trans listed.symm listed')]
    | _ => simp [Record.kind] at kinds
  | dependency d => exact absurd rfl known

end Records

end RepoAudit.Report
