import RepoAudit.Proofs.History.Totals

/-!
# Files that change together

The weight of a pair of files is the number of commits that touch both. `coupling_withHistory` tells
which pairs a project keeps and with what weight.
-/

namespace RepoAudit

open Project History

namespace History

/-! ### Pairs of a list -/

theorem of_mem_laterPairs {l : List String} (nodup : l.Nodup) {x y : String}
    (member : (x, y) ∈ laterPairs l) : x ∈ l ∧ y ∈ l ∧ x ≠ y := by
  induction l with
  | nil => cases member
  | cons first rest ih =>
    obtain ⟨absent, nodup⟩ := List.nodup_cons.mp nodup
    rcases List.mem_append.mp member with here | later
    · obtain ⟨y, later, same⟩ := List.mem_map.mp here
      obtain ⟨rfl, rfl⟩ := Prod.mk.inj same
      exact ⟨List.mem_cons_self, List.mem_cons_of_mem _ later, fun equal => absent (equal ▸ later)⟩
    · obtain ⟨inRest, inRest', different⟩ := ih nodup later
      exact ⟨List.mem_cons_of_mem _ inRest, List.mem_cons_of_mem _ inRest', different⟩

/-- Of a list without repetitions every two elements are one pair. -/
theorem count_laterPairs {l : List String} (nodup : l.Nodup) {x y : String} (different : x ≠ y) :
    (laterPairs l).countP (fun z => UnorderedPair.of z.1 z.2 = .of x y) =
      if x ∈ l ∧ y ∈ l then 1 else 0 := by
  induction l with
  | nil => rfl
  | cons first rest ih =>
    obtain ⟨absent, nodup⟩ := List.nodup_cons.mp nodup
    have once (z : String) : rest.countP (· = z) = if z ∈ rest then 1 else 0 := by
      split
      · rename_i member
        exact List.count_eq_one_of_mem nodup member
      · rename_i member
        exact List.count_eq_zero_of_not_mem member
    rw [laterPairs, List.countP_append, List.countP_map, ih nodup]
    simp only [Function.comp_def, UnorderedPair.of_eq_of_iff]
    -- the first element makes a pair with each later one; it may be one of the two or neither
    by_cases isX : first = x
    · subst isX
      simp [different, different.symm, absent, once]
    · by_cases isY : first = y
      · subst isY
        simp [different.symm, Ne.symm isX, absent, once]
      · simp [isX, isY, Ne.symm isX, Ne.symm isY]

/-- Of pairs of different files each adds to what was counted before. -/
theorem coupling_foldl_couple {zs : List (String × String)} (different : ∀ z ∈ zs, z.1 ≠ z.2)
    (p : Project) : (zs.foldl (fun p z => p.couple z.1 z.2 1) p).coupling =
      zs.foldl (fun m z => m.alter (.of z.1 z.2) fun n => some (n.getD 0 + 1)) p.coupling := by
  induction zs generalizing p with
  | nil => rfl
  | cons z rest ih =>
    obtain ⟨apart, later⟩ := List.forall_mem_cons.mp different
    rw [List.foldl_cons, ih later, couple, if_neg (by simpa using apart), List.foldl_cons]

/-! ### Pairs of files -/

/-- How many commits touch both of two paths. -/
def together (counts : String → Bool) (entries : List Entry) (x y : String) : Nat :=
  entries.countP fun e => (e.touched counts).contains x && (e.touched counts).contains y

/-- The pairs of files that each of some commits touches. -/
def pairs (counts : String → Bool) (entries : List Entry) : List (String × String) :=
  (entries.map (touch counts)).flatMap fun t => laterPairs (t.files.keys.map fileId)

theorem nodup_files (counts : String → Bool) (e : Entry) :
    ((touch counts e).files.keys.map fileId).Nodup :=
  (SortedMap.nodup_keys _).map fun _ _ => fileId_injective

theorem mem_files {counts : String → Bool} {e : Entry} {id : String} :
    id ∈ (touch counts e).files.keys.map fileId ↔
      ∃ path, (e.touched counts).contains path = true ∧ fileId path = id := by
  simp [keys_touch]

theorem fileId_mem_files {counts : String → Bool} {e : Entry} {path : String} :
    fileId path ∈ (touch counts e).files.keys.map fileId ↔
      (e.touched counts).contains path = true := by
  rw [mem_files]
  refine ⟨fun ⟨path', touched, same⟩ => fileId_injective same ▸ touched, fun touched => ?_⟩
  exact ⟨path, touched, rfl⟩

theorem ne_of_mem_pairs {counts : String → Bool} {entries : List Entry} :
    ∀ z ∈ pairs counts entries, z.1 ≠ z.2 := by
  intro z member
  obtain ⟨t, touched, later⟩ := List.mem_flatMap.mp member
  obtain ⟨e, -, rfl⟩ := List.mem_map.mp touched
  exact (of_mem_laterPairs (nodup_files counts e) later).2.2

theorem count_pairs (counts : String → Bool) (entries : List Entry) {x y : String}
    (different : x ≠ y) : (pairs counts entries).countP
        (fun z => UnorderedPair.of z.1 z.2 = .of (fileId x) (fileId y)) =
      together counts entries x y := by
  induction entries with
  | nil => rfl
  | cons e rest ih =>
    have apart : fileId x ≠ fileId y := fun same => different (fileId_injective same)
    rw [pairs, List.map_cons, List.flatMap_cons, List.countP_append, ← pairs, ih,
      count_laterPairs (nodup_files counts e) apart, together, together, List.countP_cons,
      Nat.add_comm]
    simp only [fileId_mem_files, Bool.and_eq_true]

/-- The weight of a pair is the number of times that it was found. -/
theorem get?_coupling (counts : String → Bool) (entries : List Entry) (pair : UnorderedPair) :
    (coupling (entries.map (touch counts))).get? pair =
      let n := (pairs counts entries).countP fun z => UnorderedPair.of z.1 z.2 = pair
      if n = 0 then none else some n := by
  have counted := coupling_foldl_couple (@ne_of_mem_pairs counts entries) ∅
  have gathered := SortedMap.get?_gathered (fun z : String × String => UnorderedPair.of z.1 z.2)
    (fun _ before => before.getD 0 + 1) (pairs counts entries) ∅ pair
  rw [SortedMap.get?_empty, SortedMap.foldl_some_add, List.map_const', List.sum_replicate_nat,
    Nat.mul_one, ← List.countP_eq_length_filter] at gathered
  rw [coupling, ← pairs, counted]
  refine gathered.trans (if_congr ?_ rfl rfl)
  rw [List.countP_eq_zero, List.filter_eq_nil_iff]

end History

namespace Project

theorem KeyedByPath.of_counts {p : Project} (keyed : p.KeyedByPath) {config : Config}
    {path : String} (counted : p.counts config path = true) :
    ∃ f, p.files.get? (fileId path) = some f := by
  obtain ⟨f, member, rfl⟩ := counts_of_mem counted
  obtain ⟨e, stored, rfl⟩ := List.mem_map.mp member
  exact ⟨e.2, (SortedMap.mem_entries _).mp (keyed e stored ▸ stored)⟩

theorem get?_withHistory_coupling (p : Project) (config : Config) (entries : List Entry)
    (pair : UnorderedPair) : (p.withHistory config entries).coupling.get? pair =
      let n := (pairs (p.counts config) entries).countP fun z => UnorderedPair.of z.1 z.2 = pair
      if max 1 config.history.minCouplingWeight ≤ n then some n else none := by
  rw [withHistory_eq]
  refine (SortedMap.get?_filter _ _ pair).trans ?_
  rw [touches, get?_coupling]
  dsimp only
  split
  · rename_i none
    rw [none, Option.filter_none, if_neg]
    omega
  · rename_i some
    rw [Option.filter_some]
    refine if_congr ?_ rfl rfl
    rw [decide_eq_true_eq]
    omega

theorem couplingWeight_comm (p : Project) (x y : String) :
    p.couplingWeight x y = p.couplingWeight y x := by
  rw [couplingWeight, couplingWeight, UnorderedPair.of_comm]

section Pairs

variable {p : Project} {config : Config} {entries : List Entry} (keyed : p.KeyedByPath)
include keyed

theorem weight_withHistory {a b : String} {f g : File} (storedA : p.files.get? a = some f)
    (storedB : p.files.get? b = some g) (apart : a ≠ b) :
    let n := together (p.counts config) entries f.path g.path
    (p.withHistory config entries).coupling.get? (.of a b) =
      if max 1 config.history.minCouplingWeight ≤ n then some n else none := by
  have idA : a = fileId f.path := keyed (a, f) ((SortedMap.mem_entries _).mpr storedA)
  have idB : b = fileId g.path := keyed (b, g) ((SortedMap.mem_entries _).mpr storedB)
  have different : f.path ≠ g.path := fun same => apart (by rw [idA, idB, same])
  rw [get?_withHistory_coupling, idA, idB, count_pairs _ _ different]

theorem files_of_pair {pair : UnorderedPair} {n : Nat}
    (kept : (p.withHistory config entries).coupling.get? pair = some n) :
    ∃ x y, pair = .of x y ∧ x ≠ y ∧ p.files.contains x = true ∧ p.files.contains y = true := by
  rw [get?_withHistory_coupling] at kept
  obtain ⟨enough, -⟩ := Option.ite_none_right_eq_some.mp kept
  have found : 0 < (pairs (p.counts config) entries).countP
      fun z => UnorderedPair.of z.1 z.2 = pair := by omega
  -- what is kept was found at least once, among the files of some commit
  obtain ⟨⟨x, y⟩, member, same⟩ := List.countP_pos_iff.mp found
  obtain ⟨t, touched, later⟩ := List.mem_flatMap.mp member
  obtain ⟨e, -, rfl⟩ := List.mem_map.mp touched
  obtain ⟨inX, inY, different⟩ := of_mem_laterPairs (nodup_files _ e) later
  have known {id : String} (held : id ∈ (touch (p.counts config) e).files.keys.map fileId) :
      p.files.contains id = true := by
    obtain ⟨path, touched, rfl⟩ := mem_files.mp held
    have counted := (Entry.mem_touched.mp (SortedSet.contains_iff.mp touched)).1
    exact Option.isSome_iff_exists.mpr (keyed.of_counts counted)
  exact ⟨x, y, (of_decide_eq_true same).symm, different, known inX, known inY⟩

end Pairs

/-- Two files are kept as a pair exactly if enough commits touch both, and their weight is the
number of these commits. There are no other pairs. -/
theorem coupling_withHistory (p : Project) (config : Config) (entries : List Entry)
    (keyed : p.KeyedByPath) :
    let q := p.withHistory config entries
    (∀ a f b g, p.files.get? a = some f → p.files.get? b = some g → a ≠ b →
      let n := together (p.counts config) entries f.path g.path
      q.coupling.get? (.of a b) =
        if max 1 config.history.minCouplingWeight ≤ n then some n else none) ∧
    (∀ pair n, q.coupling.get? pair = some n →
      pair = .of pair.first pair.second ∧ pair.first < pair.second ∧
      p.files.contains pair.first = true ∧ p.files.contains pair.second = true) ∧
    ∀ x y, q.couplingWeight x y = q.couplingWeight y x := by
  intro q
  refine ⟨fun a f b g storedA storedB apart => ?_, fun pair n kept => ?_, couplingWeight_comm q⟩
  · exact weight_withHistory keyed storedA storedB apart
  · obtain ⟨x, y, rfl, different, knownX, knownY⟩ := files_of_pair keyed kept
    refine ⟨(UnorderedPair.of_first_second _).symm, UnorderedPair.first_lt_second different, ?_⟩
    rcases UnorderedPair.of_cases x y with ⟨first, second⟩ | ⟨first, second⟩
    · rw [first, second]
      exact ⟨knownX, knownY⟩
    · rw [first, second]
      exact ⟨knownY, knownX⟩

theorem coupling_of_ledger : ledger.KeyedByPath ∧
    (ledger.files.get? (fileId "a.py")).map (·.path) = some "a.py" ∧
    (ledger.files.get? (fileId "b.py")).map (·.path) = some "b.py" ∧
    fileId "b.py" ≠ fileId "a.py" ∧ together (ledger.counts {}) ledgerCommits "b.py" "a.py" = 1 ∧
    (ledger.withHistory {} ledgerCommits).coupling.get? (.of (fileId "b.py") (fileId "a.py")) =
      some 1 := by
  have keyed : ledger.KeyedByPath := by decide +kernel
  have first : (ledger.files.get? (fileId "a.py")).map (·.path) = some "a.py" := by decide +kernel
  have second : (ledger.files.get? (fileId "b.py")).map (·.path) = some "b.py" := by decide +kernel
  have apart : fileId "b.py" ≠ fileId "a.py" := by decide +kernel
  have once : together (ledger.counts {}) ledgerCommits "b.py" "a.py" = 1 := by decide +kernel
  obtain ⟨f, storedF, pathF⟩ := Option.map_eq_some_iff.mp first
  obtain ⟨g, storedG, pathG⟩ := Option.map_eq_some_iff.mp second
  have weight := (coupling_withHistory ledger {} ledgerCommits keyed).1 _ g _ f storedG storedF apart
  dsimp only at weight
  rw [pathF, pathG, once] at weight
  exact ⟨keyed, first, second, apart, once, weight⟩

end Project
end RepoAudit
