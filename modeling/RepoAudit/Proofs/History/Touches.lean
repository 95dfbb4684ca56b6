import RepoAudit.History.Effect
import RepoAudit.Proofs.Ordered.Gathering

/-!
# What commits touch

A commit touches the paths that it changes and for which a project counts changes, each with the
lines of all changes to it. Here the effect of a commit on the files of a project is read off its
changes.
-/

namespace RepoAudit

open Project History

/-- Whether changes to a path count: a file of the project has it and it is not excluded. -/
def Project.counts (p : Project) (config : Config) (path : String) : Bool :=
  p.files.values.any (·.path == path) && !config.exclude.excludes path

namespace Project

theorem counts_of_mem {p : Project} {config : Config} {path : String}
    (counted : p.counts config path = true) : ∃ f ∈ p.files.values, f.path = path := by
  simp only [counts, Bool.and_eq_true, List.any_eq_true, beq_iff_eq] at counted
  exact counted.1

/-- What each of some commits does to a project. -/
def touches (p : Project) (config : Config) (entries : List Entry) : List Touch :=
  entries.map (touch (p.counts config))

theorem withHistory_eq (p : Project) (config : Config) (entries : List Entry) :
    p.withHistory config entries =
      let touches := p.touches config entries
      let files := p.files.mapValues (credit config.history.ownershipThreshold touches)
      { p with
        files
        commits := .ofList (touches.map fun t => (t.commit.id, t.commit))
        contributors := withOwned files.values (people touches)
        coupling := (History.coupling touches).filter fun _ n => config.history.minCouplingWeight ≤ n } := by
  have same : (fun path => (SortedSet.ofList (p.files.values.map (·.path))).contains path &&
      !config.exclude.excludes path) = p.counts config := by
    funext path
    rw [counts]
    congr 1
    rw [Bool.eq_iff_iff, SortedSet.contains_iff, SortedSet.mem_ofList, List.any_eq_true]
    simp
  unfold withHistory touches
  rw [← same]

end Project

namespace History

/-! ### Numbers of lines -/

instance : Zero Lines := ⟨.zero⟩

instance : Add Lines := ⟨.plus⟩

instance : AddCommMonoid Lines where
  nsmul := nsmulRec
  add_assoc a b c := congrArg₂ Lines.mk (Nat.add_assoc ..) (Nat.add_assoc ..)
  zero_add a := congrArg₂ Lines.mk (Nat.zero_add _) (Nat.zero_add _)
  add_zero a := rfl
  add_comm a b := congrArg₂ Lines.mk (Nat.add_comm ..) (Nat.add_comm ..)

theorem Lines.sum_eq (xs : List Lines) : Lines.sum xs = xs.sum := rfl

theorem Lines.added_sum (xs : List Lines) : (Lines.sum xs).added = (xs.map (·.added)).sum := by
  induction xs with
  | nil => rfl
  | cons x rest ih => exact congrArg (x.added + ·) ih

theorem Lines.deleted_sum (xs : List Lines) :
    (Lines.sum xs).deleted = (xs.map (·.deleted)).sum := by
  induction xs with
  | nil => rfl
  | cons x rest ih => exact congrArg (x.deleted + ·) ih

/-! ### Commits -/

namespace Entry

def author (e : Entry) : String := personId e.name e.email

/-- The paths that a commit changes, among those that count. -/
def touched (counts : String → Bool) (e : Entry) : SortedSet String :=
  .ofList ((e.changes.map (·.path)).filter counts)

/-- The lines of all changes of a commit to a path. -/
def linesIn (e : Entry) (path : String) : Lines :=
  .sum ((e.changes.filter (·.path = path)).map fun c => ⟨c.added, c.deleted⟩)

/-- The lines of a commit in all the paths that it touches. -/
def total (counts : String → Bool) (e : Entry) : Lines :=
  .sum ((e.touched counts).toList.map e.linesIn)

theorem mem_touched {counts : String → Bool} {e : Entry} {path : String} :
    path ∈ e.touched counts ↔ counts path = true ∧ ∃ c ∈ e.changes, c.path = path := by
  simp [touched, and_comm]

theorem total_added (counts : String → Bool) (e : Entry) : (e.total counts).added =
    ((e.touched counts).toList.map fun path => (e.linesIn path).added).sum := by
  rw [total, Lines.added_sum, List.map_map]
  rfl

theorem total_deleted (counts : String → Bool) (e : Entry) : (e.total counts).deleted =
    ((e.touched counts).toList.map fun path => (e.linesIn path).deleted).sum := by
  rw [total, Lines.deleted_sum, List.map_map]
  rfl

end Entry

/-- The commits that touch a path. -/
def touching (counts : String → Bool) (entries : List Entry) (path : String) : List Entry :=
  entries.filter fun e => (e.touched counts).contains path

@[simp] theorem entry_touch (counts : String → Bool) (e : Entry) : (touch counts e).entry = e := rfl

@[simp] theorem author_touch (counts : String → Bool) (e : Entry) :
    (touch counts e).author = e.author := by
  rw [touch, Entry.author]

theorem get?_touch (counts : String → Bool) (e : Entry) (path : String) :
    (touch counts e).files.get? path =
      if (e.touched counts).contains path then some (e.linesIn path) else none := by
  have gathered : linesByPath counts e.changes = (e.changes.filter fun c => counts c.path).foldl
      (fun m c => m.alter c.path fun before =>
        some (before.getD 0 + (⟨c.added, c.deleted⟩ : Lines))) ∅ := by
    rw [List.foldl_filter]
    rfl
  change (linesByPath counts e.changes).get? path = _
  rw [gathered, SortedMap.get?_gathered Change.path
      fun c before => before.getD 0 + (⟨c.added, c.deleted⟩ : Lines),
    SortedMap.get?_empty, SortedMap.foldl_some_add, List.filter_filter]
  -- changes to a path that does not count are passed over, and the path is not touched
  by_cases counted : counts path = true
  · have kept : e.changes.filter (fun c => decide (c.path = path) && counts c.path) =
        e.changes.filter (·.path = path) := by
      refine List.filter_congr fun c _ => ?_
      by_cases same : c.path = path <;> simp [same, counted]
    have touched : (e.touched counts).contains path = true ↔
        e.changes.filter (·.path = path) ≠ [] := by
      rw [SortedSet.contains_iff, Entry.mem_touched]
      simp [counted, List.filter_eq_nil_iff]
    rw [kept, Entry.linesIn, Lines.sum_eq]
    by_cases absent : e.changes.filter (·.path = path) = [] <;> simp [touched, absent]
  · have gone : e.changes.filter (fun c => decide (c.path = path) && counts c.path) = [] := by
      refine List.filter_eq_nil_iff.mpr fun c _ passed => counted ?_
      simp only [Bool.and_eq_true, decide_eq_true_eq] at passed
      exact passed.1 ▸ passed.2
    have untouched : (e.touched counts).contains path = false := by
      rw [SortedSet.contains_eq_false, Entry.mem_touched]
      exact fun both => counted both.1
    rw [gone, untouched]
    rfl

theorem keys_touch (counts : String → Bool) (e : Entry) :
    (touch counts e).files.keys = (e.touched counts).toList := by
  refine SortedMap.keys_eq_toList fun path => ?_
  rw [SortedMap.mem_keys, get?_touch]
  simp

theorem total_touch (counts : String → Bool) (e : Entry) :
    (touch counts e).total = e.total counts := by
  have values : (touch counts e).files.values = (touch counts e).files.keys.map e.linesIn := by
    rw [SortedMap.values, SortedMap.keys, List.map_map]
    refine List.map_congr_left fun entry stored => ?_
    have found := (SortedMap.mem_entries _).mp stored
    rw [get?_touch] at found
    split at found
    · exact (Option.some.inj found).symm
    · cases found
  rw [Touch.total, values, keys_touch, Entry.total]

theorem linesOf?_touch (counts : String → Bool) (e : Entry) (path : String) :
    (touch counts e).linesOf? (fileId path) =
      if (e.touched counts).contains path then some (e.linesIn path) else none := by
  have byPath (es : List (String × Lines)) :
      (es.find? fun x => fileId x.1 == fileId path).map (·.2) = SortedMap.lookup path es := by
    induction es with
    | nil => rfl
    | cons x rest ih =>
      by_cases same : x.1 = path
      · simp [SortedMap.lookup, same]
      · have other : fileId x.1 ≠ fileId path := fun equal => same (fileId_injective equal)
        simp [SortedMap.lookup, other, Ne.symm same, ih]
  rw [← get?_touch]
  exact byPath _

/-- What commits do to a file that is stored under its identifier. -/
theorem own_touches (counts : String → Bool) (entries : List Entry) (path : String) :
    ((entries.map (touch counts)).filterMap fun t =>
        (t.linesOf? (fileId path)).map fun lines => (t.author, lines)) =
      (touching counts entries path).map fun e => (e.author, e.linesIn path) := by
  induction entries with
  | nil => rfl
  | cons e rest ih =>
    rw [List.map_cons, List.filterMap_cons, linesOf?_touch, ih, touching, touching]
    by_cases touched : (e.touched counts).contains path <;> simp [touched]

end History
end RepoAudit
