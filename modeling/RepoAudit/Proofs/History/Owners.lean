import RepoAudit.Proofs.Audit.Coherence
import RepoAudit.Proofs.Decimal.Shares

/-!
# Owners of files

A file belongs to the contributor who added most of its lines, if this is enough of them.
`owners_withHistory` tells who owns which file after a history, and that contributors know of it.
-/

namespace RepoAudit

open Project

namespace History

/-! ### Files that nobody owns -/

/-- A share of nothing is not a number, and not enough. -/
theorem not_enough_of_zero (threshold : Float) : ¬ Enough threshold 0 0 := by
  have share : (Float.ofNat 0 / Float.ofNat 0).toModel.unpack = .notANumber := by rfl
  rw [Enough, Decimal.le_iff_compare, share]
  cases threshold.toModel.unpack <;> simp [Float.Model.UnpackedFloat.compare]

theorem not_enough_of_owner {threshold : Float} {shares : SortedMap String Nat}
    (monotone : 0 < shares.values.sum → Decimal.MonotoneShares shares.values.sum)
    (owner : owner? threshold shares = none) {person : String} {lines : Nat}
    (share : shares.get? person = some lines) : ¬ Enough threshold lines shares.values.sum := by
  have part : lines ≤ shares.values.sum :=
    List.le_sum_of_mem (SortedMap.mem_values.mpr ⟨person, share⟩)
  rw [owner?_eq] at owner
  split_ifs at owner with total
  · obtain rfl : lines = 0 := by omega
    rw [total]
    exact not_enough_of_zero threshold
  · intro enough
    obtain ⟨⟨who, most⟩, found⟩ := exists_greatest
      (List.ne_nil_of_mem ((SortedMap.mem_entries _).mpr share))
    obtain ⟨led, leads⟩ := leads_of_greatest found
    have below : most ≤ shares.values.sum :=
      List.le_sum_of_mem (SortedMap.mem_values.mpr ⟨who, led⟩)
    have fewer : lines ≤ most := (leads person lines share).elim Nat.le_of_lt fun same => same.1.le
    have order := monotone (Nat.pos_of_ne_zero total) lines most fewer below
    have chosen : (if Enough threshold most shares.values.sum then some who else none) = none := by
      rwa [found] at owner
    have enough' : Enough threshold most shares.values.sum := Decimal.le_trans enough order
    rw [if_pos enough'] at chosen
    cases chosen

end History

namespace Project

/-! ### Owners after a history -/

/-- What a file says of its owner. -/
structure File.Attributed (threshold : Float) (f : File) : Prop where
  /-- Nobody owns a file to which nothing was added. -/
  untouched : f.linesAdded = 0 → f.owner = none
  /-- Whoever owns a file has added most to it, and comes first among those who added as much. -/
  leads : ∀ person, f.owner = some person → ∃ lines, f.contributions.get? person = some lines ∧
    History.Enough threshold lines f.linesAdded ∧
    ∀ other n, f.contributions.get? other = some n → n < lines ∨ n = lines ∧ person ≤ other
  /-- Where nobody owns a file, nobody has added enough to it. -/
  shared : f.owner = none → ∀ person lines, f.contributions.get? person = some lines →
    ¬ History.Enough threshold lines f.linesAdded

theorem attributed_of_account {threshold : Float} {counts : String → Bool}
    {entries : List History.Entry} {f : File} (account : History.FileAccount counts entries f)
    (decided : f.owner = History.owner? threshold f.contributions)
    (monotone : 0 < f.linesAdded → Decimal.MonotoneShares f.linesAdded) :
    f.Attributed threshold := by
  have total := account.sum_contributions
  constructor
  case untouched =>
    intro none
    rw [decided, History.owner?_eq, if_pos (total.trans none)]
  case leads =>
    intro person owner
    rw [← total]
    exact History.leads_of_owner (decided.symm.trans owner)
  case shared =>
    intro owner person lines share
    rw [← total] at monotone ⊢
    exact History.not_enough_of_owner monotone (decided.symm.trans owner) share

/-- What files and contributors say of owners after a history. -/
structure Owners (p : Project) (config : Config) (entries : List History.Entry) (q : Project) :
    Prop where
  files : ∀ id f, q.files.get? id = some f →
    History.FileAccount (p.counts config) entries f ∧
      f.Attributed config.history.ownershipThreshold
  known : ∀ id f person, q.files.get? id = some f → f.owner = some person →
    ∃ c, q.contributors.get? person = some c
  owns : ∀ person c, q.contributors.get? person = some c → c.id = person ∧
    ∀ id f, q.files.get? id = some f → (f.id ∈ c.owns ↔ f.owner = some person)
  nothingElse : ∀ person c, q.contributors.get? person = some c → ∀ file ∈ c.owns,
    ∃ f, q.files.get? file = some f ∧ f.owner = some person

section History

variable {p : Project} {config : Config} {entries : List History.Entry}

theorem mem_owns {person : String} {c : Person} {file : String}
    (stored : (p.withHistory config entries).contributors.get? person = some c) :
    file ∈ c.owns ↔ ∃ id f, (p.withHistory config entries).files.get? id = some f ∧
      f.owner = some person ∧ f.id = file := by
  rw [withHistory_eq] at stored ⊢
  dsimp only at stored ⊢
  rw [touches, History.get?_withOwned] at stored
  obtain ⟨first, -, rfl⟩ := Option.map_eq_some_iff.mp stored
  simp only [SortedSet.mem_ofList, List.mem_map, List.mem_filter, beq_iff_eq,
    SortedMap.mem_values, and_assoc, touches]
  constructor
  · rintro ⟨f, ⟨id, held⟩, rest⟩
    exact ⟨id, f, held, rest⟩
  · rintro ⟨id, f, held, rest⟩
    exact ⟨f, ⟨id, held⟩, rest⟩

/-- After a history each file belongs to the contributor who added most of its lines, if these are
enough, and contributors own the files that say so. -/
theorem owners_withHistory (p : Project) (config : Config) (entries : List History.Entry)
    (keyed : p.KeyedByPath) (named : ∀ id f, p.files.get? id = some f → f.id = id)
    (monotone : ∀ id f, (p.withHistory config entries).files.get? id = some f →
      0 < f.linesAdded → Decimal.MonotoneShares f.linesAdded) :
    Owners p config entries (p.withHistory config entries) := by
  have credited (id : String) (f : File)
      (stored : (p.withHistory config entries).files.get? id = some f) :
      ∃ before, p.files.get? id = some before ∧ History.credit config.history.ownershipThreshold
        (p.touches config entries) id before = f := by
    rw [withHistory_eq, SortedMap.get?_mapValues] at stored
    exact Option.map_eq_some_iff.mp stored
  have sameId (id : String) (f : File)
      (stored : (p.withHistory config entries).files.get? id = some f) : f.id = id := by
    obtain ⟨before, held, rfl⟩ := credited id f stored
    exact named id before held
  constructor
  case files =>
    intro id f stored
    obtain ⟨before, held, same⟩ := credited id f stored
    have account : History.FileAccount (p.counts config) entries f :=
      same ▸ History.fileAccount_credit _ _ _ (keyed _ ((SortedMap.mem_entries _).mpr held))
    exact ⟨account, attributed_of_account account (by rw [← same]; rfl) (monotone id f stored)⟩
  case known =>
    intro id f person stored owner
    obtain ⟨before, held, rfl⟩ := credited id f stored
    exact Option.isSome_iff_exists.mp
      (contains_contributors.mpr (author_of_owner keyed held owner))
  case owns =>
    intro person c known
    refine ⟨(Person.inPlace_withHistory known).stored, fun id f stored => ?_⟩
    rw [mem_owns known]
    constructor
    · rintro ⟨id', f', stored', owner, same⟩
      obtain rfl : id' = id := by rw [← sameId id' f' stored', same, sameId id f stored]
      obtain rfl := Option.some.inj (stored.symm.trans stored')
      exact owner
    · exact fun owner => ⟨id, f, stored, owner, rfl⟩
  case nothingElse =>
    intro person c known file member
    obtain ⟨id, f, stored, owner, rfl⟩ := (mem_owns known).mp member
    exact ⟨f, (sameId id f stored).symm ▸ stored, owner⟩

end History

/-- Three files, one of which an earlier history gave to somebody who is gone. -/
def workshop : Project where
  files := .ofList ([.ofPath "a.py", { File.ofPath "b.py" with owner := some "gone" },
    .ofPath "c.py"].map fun f : File => (f.id, f))
  contributors := .ofList [("gone",
    { id := "gone", name := "Gil", email := "", owns := .ofList [fileId "b.py"] })]

/-- Ann has most of the lines of one file, too few of another, and as many as Bob of a third. -/
def workshopCommits : List History.Entry :=
  [{ sha := "1", name := "Ann", email := "", time := ⟨0, 0⟩, message := "begin"
     changes := [⟨"a.py", 6, 0⟩, ⟨"b.py", 5, 0⟩, ⟨"c.py", 2, 0⟩] },
   { sha := "2", name := "Bob", email := "", time := ⟨60, 0⟩, message := "go on"
     changes := [⟨"a.py", 4, 0⟩, ⟨"b.py", 3, 0⟩, ⟨"c.py", 2, 0⟩] },
   { sha := "3", name := "Cy", email := "", time := ⟨120, 0⟩, message := "end"
     changes := [⟨"b.py", 3, 0⟩] }]

theorem owners_of_workshop : workshop.KeyedByPath ∧
    (∀ e ∈ workshop.files.entries, e.2.id = e.1) ∧
    (∀ f ∈ (workshop.withHistory {} workshopCommits).files.values, f.linesAdded < 2 ^ 64) ∧
    Owners workshop {} workshopCommits (workshop.withHistory {} workshopCommits) ∧
    (workshop.withHistory {} workshopCommits).files.values.map (·.owner) =
      [some (personId "Ann" ""), none, some (personId "Ann" "")] := by
  have keyed : workshop.KeyedByPath := by decide +kernel
  have named : ∀ e ∈ workshop.files.entries, e.2.id = e.1 := by decide +kernel
  have small : ∀ f ∈ (workshop.withHistory {} workshopCommits).files.values,
      f.linesAdded < 2 ^ 64 := by decide +kernel
  refine ⟨keyed, named, small, ?_, by decide +kernel⟩
  refine owners_withHistory workshop {} workshopCommits keyed (fun id f stored => ?_)
    fun id f stored some => ?_
  · exact named (id, f) ((SortedMap.mem_entries _).mpr stored)
  · exact Decimal.monotoneShares_of_lt some (small f (SortedMap.mem_values.mpr ⟨id, stored⟩))

end Project
end RepoAudit
