import RepoAudit.Proofs.Decimal.Signs
import RepoAudit.Proofs.Ordered.Gathering
import RepoAudit.Ranking.Comparison

/-!
# What a comparison tells of two projects

A comparison lists the issues that only one of two projects has, and tells at most once of a file,
namely if it is only in one of them or if its hotness has changed: `compared_comparison`. No change
is told in two ways, so the comparison in the other direction is the same one mirrored.
-/

namespace RepoAudit.Ranking

open Project Decimal

/-- Issues and files are stored under their identifiers, and files are identified by their paths. -/
structure Keyed (p : Project) : Prop where
  issues : ∀ id i, p.issues.get? id = some i → i.id = id
  files : ∀ id f, p.files.get? id = some f → f.id = id ∧ f.id = fileId f.path

/-! ### What is told of one file -/

/-- The change from a file that may have been there to one that may be there. -/
def change? (before after : Option File) : Option Delta :=
  match after with
  | some f => changed? before f
  | none => before.map removed

/-- The change in the other direction. -/
def Delta.mirrored (d : Delta) : Delta := ⟨d.path, d.new, d.old, -d.delta⟩

theorem Delta.mirrored_mirrored (d : Delta) : d.mirrored.mirrored = d := by
  rw [mirrored, mirrored, float_neg_neg]

theorem changed?_some (b f : File) : changed? (some b) f =
    if tolerance < (f.hotness - b.hotness).abs then
      some ⟨f.path, some b.hotness, some f.hotness, f.hotness - b.hotness⟩
    else none := rfl

theorem ne_zero_of_tolerance_lt {x : Float} (above : tolerance < x) : x ≠ 0.0 := by
  rintro rfl
  exact absurd above (by decide +kernel)

/-- A file with the same hotness has not changed. -/
theorem not_tolerance_lt_of_equal {x y : Float} (equal : x = y ∨ (x == y) = true) :
    ¬ tolerance < (x - y).abs := by
  rcases float_abs_sub_of_equal equal with none | none
  · rw [none]
    decide +kernel
  · rw [none]
    decide +kernel

theorem change?_comm {before after : Option File}
    (same : ∀ b ∈ before, ∀ f ∈ after, b.path = f.path) :
    change? after before = (change? before after).map Delta.mirrored := by
  cases before with
  | none => cases after <;> rfl
  | some b =>
    cases after with
    | none => simp [change?, changed?, removed, Delta.mirrored, float_neg_neg]
    | some f =>
      have path : b.path = f.path := same b rfl f rfl
      simp only [change?, changed?_some, float_abs_sub_comm b.hotness f.hotness]
      split
      · rename_i above
        have turned := float_neg_sub (ne_zero_of_tolerance_lt above)
        simp only [Option.map_some, Delta.mirrored, path, turned]
      · rfl

theorem path_of_change? {before after : Option File} {d : Delta}
    (told : change? before after = some d) :
    (∃ f ∈ after, d.path = f.path) ∨ after = none ∧ ∃ b ∈ before, d.path = b.path := by
  cases after with
  | none =>
    obtain ⟨b, rfl, rfl⟩ := Option.map_eq_some_iff.mp told
    exact .inr ⟨rfl, b, rfl, rfl⟩
  | some f =>
    refine .inl ⟨f, rfl, ?_⟩
    cases before with
    | none => rw [← Option.some.inj told]
    | some b =>
      rw [change?, changed?_some, Option.ite_none_right_eq_some] at told
      rw [← Option.some.inj told.2]

/-! ### What is told of all files -/

/-- All changes, before they are put in order. -/
def changes (old new : Project) : List Delta :=
  new.files.entries.filterMap (fun e => changed? (old.files.get? e.1) e.2) ++
    old.files.entries.filterMap fun e =>
      if !new.files.contains e.1 then some (removed e.2) else none

theorem deltas_eq (old new : Project) : (comparison old new).deltas =
    (changes old new).mergeSort fun a b => (a.order b).isLE := by
  have gone : (old.files.filter fun id _ => !new.files.contains id).values.map removed =
      old.files.entries.filterMap fun e =>
        if !new.files.contains e.1 then some (removed e.2) else none := by
    rw [SortedMap.values, SortedMap.filter, List.map_map, ← List.filterMap_eq_map,
      List.filterMap_filter]
    rfl
  rw [changes, ← gone]
  rfl

theorem mem_changes {old new : Project} {d : Delta} : d ∈ changes old new ↔
    ∃ id, change? (old.files.get? id) (new.files.get? id) = some d := by
  simp only [changes, List.mem_append, List.mem_filterMap, Prod.exists, SortedMap.mem_entries]
  constructor
  · rintro (⟨id, f, there, told⟩ | ⟨id, b, there, told⟩)
    · exact ⟨id, by rw [there]; exact told⟩
    · rw [Option.ite_none_right_eq_some] at told
      have absent : new.files.get? id = none := by simpa [SortedMap.contains] using told.1
      exact ⟨id, by rw [there, absent]; exact told.2⟩
  · rintro ⟨id, told⟩
    cases after : new.files.get? id with
    | some f =>
      rw [after] at told
      exact .inl ⟨id, f, after, told⟩
    | none =>
      rw [after] at told
      obtain ⟨b, there, rfl⟩ := Option.map_eq_some_iff.mp told
      exact .inr ⟨id, b, there, by simp [SortedMap.contains, after]⟩

/-! ### The order of changes -/

theorem order_isLE_iff {a b : Delta} : (a.order b).isLE = true ↔
    magnitude b.delta < magnitude a.delta ∨
      magnitude b.delta = magnitude a.delta ∧ a.path ≤ b.path := by
  rw [Delta.order, Ordering.isLE_then_iff_or, Nat.compare_eq_lt, Nat.compare_eq_eq,
    Ordering.isLE_iff_ne_gt, ← ne_eq, compare_le_iff_le]

theorem order_trans {a b c : Delta} (first : (a.order b).isLE = true)
    (second : (b.order c).isLE = true) : (a.order c).isLE = true := by
  rw [order_isLE_iff] at first second ⊢
  rcases first with less | ⟨same, paths⟩
  · rcases second with less' | ⟨same', -⟩
    · exact .inl (less'.trans less)
    · exact .inl (same' ▸ less)
  · rcases second with less' | ⟨same', paths'⟩
    · exact .inl (same ▸ less')
    · exact .inr ⟨same'.trans same, paths.trans paths'⟩

theorem order_total (a b : Delta) : ((a.order b).isLE || (b.order a).isLE) = true := by
  rw [Bool.or_eq_true, order_isLE_iff, order_isLE_iff]
  rcases lt_trichotomy (magnitude a.delta) (magnitude b.delta) with less | same | greater
  · exact .inr (.inl less)
  · exact (le_total a.path b.path).imp (fun le => .inr ⟨same.symm, le⟩)
      fun le => .inr ⟨same, le⟩
  · exact .inl (.inl greater)

/-- The greatest changes come first, and equal ones by their paths. -/
theorem ordered_deltas (old new : Project) :
    (comparison old new).deltas.Pairwise fun a b => (a.order b).isLE = true := by
  rw [deltas_eq]
  exact @List.pairwise_mergeSort Delta (fun a b => (a.order b).isLE) (fun _ _ _ => order_trans)
    order_total _

theorem path_eq_of_order {a b : Delta} (le : (a.order b).isLE = true)
    (ge : (b.order a).isLE = true) : a.path = b.path := by
  rw [order_isLE_iff] at le ge
  rcases le with less | ⟨same, le⟩
  · rcases ge with less' | ⟨same, -⟩ <;> omega
  · rcases ge with less' | ⟨-, ge⟩
    · omega
    · exact le_antisymm le ge

theorem order_mirrored (a b : Delta) : a.mirrored.order b.mirrored = a.order b := by
  simp only [Delta.order, Delta.mirrored, magnitude, float_abs_neg]

/-! ### Changes of known files -/

section Known

variable {old new : Project} (known : Keyed old) (known' : Keyed new)
include known known'

theorem fileId_path {id : String} {d : Delta}
    (told : change? (old.files.get? id) (new.files.get? id) = some d) : fileId d.path = id := by
  rcases path_of_change? told with ⟨f, there, path⟩ | ⟨-, b, there, path⟩
  · obtain ⟨atId, named⟩ := known'.files id f there
    rw [path, ← named, atId]
  · obtain ⟨atId, named⟩ := known.files id b there
    rw [path, ← named, atId]

theorem mem_changes_iff {d : Delta} : d ∈ changes old new ↔
    change? (old.file? d.path) (new.file? d.path) = some d := by
  rw [mem_changes]
  constructor
  · rintro ⟨id, told⟩
    rw [Project.file?, Project.file?, fileId_path known known' told]
    exact told
  · exact fun told => ⟨_, told⟩

/-- A change is told of each file at most once. -/
theorem paths_apart : (changes old new).Pairwise fun d d' => d.path ≠ d'.path := by
  have apart {files : SortedMap String File} {tell : String × File → Option Delta}
      (known : ∀ e ∈ files.entries, ∀ d, tell e = some d → fileId d.path = e.1) :
      (files.entries.filterMap tell).Pairwise fun d d' => d.path ≠ d'.path := by
    refine List.pairwise_filterMap.mpr (files.sorted.imp_of_mem ?_)
    intro e e' stored stored' less d told d' told' same
    rw [← known e stored d told, ← known e' stored' d' told', same] at less
    simp at less
  have ofNew (e) (stored : e ∈ new.files.entries) (d)
      (told : changed? (old.files.get? e.1) e.2 = some d) : fileId d.path = e.1 := by
    refine fileId_path known known' ?_
    rw [(SortedMap.mem_entries _).mp stored]
    exact told
  have ofOld (e) (stored : e ∈ old.files.entries) (d)
      (told : (if !new.files.contains e.1 then some (removed e.2) else none) = some d) :
      fileId d.path = e.1 ∧ new.files.get? e.1 = none := by
    rw [Option.ite_none_right_eq_some] at told
    have absent : new.files.get? e.1 = none := by simpa [SortedMap.contains] using told.1
    refine ⟨fileId_path known known' ?_, absent⟩
    rw [(SortedMap.mem_entries _).mp stored, absent]
    exact told.2
  have ofOld' (e) (stored : e ∈ old.files.entries) (d)
      (told : (if !new.files.contains e.1 then some (removed e.2) else none) = some d) :=
    (ofOld e stored d told).1
  refine List.pairwise_append.mpr ⟨apart ofNew, apart ofOld', ?_⟩
  intro d member d' member' same
  obtain ⟨e, stored, told⟩ := List.mem_filterMap.mp member
  obtain ⟨e', stored', told'⟩ := List.mem_filterMap.mp member'
  obtain ⟨atId, absent⟩ := ofOld e' stored' d' told'
  rw [← atId, ← same, ofNew e stored d told, (SortedMap.mem_entries _).mp stored] at absent
  cases absent

/-- The changes of a file. -/
theorem filter_path (path : String) : (comparison old new).deltas.filter (·.path = path) =
    (change? (old.file? path) (new.file? path)).toList := by
  have perm := List.mergeSort_perm (changes old new) fun a b => (a.order b).isLE
  have nodup : ((comparison old new).deltas.filter (·.path = path)).Nodup := by
    rw [deltas_eq]
    exact (perm.nodup_iff.mpr ((paths_apart known known').imp fun apart same =>
      apart (congrArg Delta.path same))).filter _
  have members (d : Delta) : d ∈ (comparison old new).deltas.filter (·.path = path) ↔
      d ∈ (change? (old.file? path) (new.file? path)).toList := by
    rw [deltas_eq, List.mem_filter, perm.mem_iff, mem_changes_iff known known', decide_eq_true_eq,
      Option.mem_toList]
    constructor
    · rintro ⟨told, rfl⟩
      exact told
    · intro told
      obtain rfl : d.path = path := fileId_injective (fileId_path known known' told)
      exact ⟨told, rfl⟩
  cases told : change? (old.file? path) (new.file? path) with
  | none =>
    rw [told] at members
    exact ((List.perm_ext_iff_of_nodup nodup .nil).mpr members).eq_nil
  | some d =>
    rw [told] at members
    exact ((List.perm_ext_iff_of_nodup nodup (List.nodup_singleton d)).mpr members).eq_singleton

/-! ### The other direction -/

theorem changes_comm : (changes new old).Perm ((changes old new).map Delta.mirrored) := by
  have nodup {old new : Project} (known : Keyed old) (known' : Keyed new) :
      (changes old new).Nodup :=
    (paths_apart known known').imp fun apart same => apart (congrArg Delta.path same)
  have injective : Function.Injective Delta.mirrored :=
    Function.LeftInverse.injective Delta.mirrored_mirrored
  have nodup' := (nodup known known').map injective
  refine (List.perm_ext_iff_of_nodup (nodup known' known) nodup').mpr fun d => ?_
  have turned (id : String) : change? (new.files.get? id) (old.files.get? id) =
      (change? (old.files.get? id) (new.files.get? id)).map Delta.mirrored := by
    refine change?_comm fun b there f there' => ?_
    obtain ⟨atId, named⟩ := known.files id b there
    obtain ⟨atId', named'⟩ := known'.files id f there'
    exact fileId_injective (by rw [← named, ← named', atId, atId'])
  simp only [mem_changes, List.mem_map, turned, Option.map_eq_some_iff]
  constructor
  · rintro ⟨id, d', told, rfl⟩
    exact ⟨d', ⟨id, told⟩, rfl⟩
  · rintro ⟨d', ⟨id, told⟩, rfl⟩
    exact ⟨id, d', told, rfl⟩

theorem deltas_comm : (comparison new old).deltas =
    (comparison old new).deltas.map Delta.mirrored := by
  have told : (comparison new old).deltas.Perm (changes new old) := by
    rw [deltas_eq]
    exact List.mergeSort_perm _ _
  have perm : (comparison new old).deltas.Perm
      ((comparison old new).deltas.map Delta.mirrored) := by
    refine (told.trans (changes_comm known known')).trans ?_
    rw [deltas_eq]
    exact ((List.mergeSort_perm _ _).map _).symm
  have ordered : ((comparison old new).deltas.map Delta.mirrored).Pairwise
      fun a b => (a.order b).isLE = true := by
    refine List.pairwise_map.mpr ((ordered_deltas _ _).imp fun le => ?_)
    rwa [order_mirrored]
  refine perm.eq_of_pairwise (fun a b member member' le ge => ?_) (ordered_deltas _ _) ordered
  have own := (mem_changes_iff known' known).mp (told.mem_iff.mp member)
  have own' := (mem_changes_iff known' known).mp (told.mem_iff.mp (perm.mem_iff.mpr member'))
  rw [path_eq_of_order le ge, own'] at own
  exact (Option.some.inj own).symm

end Known

/-! ### Comparisons -/

/-- A comparison in the other direction. -/
def Comparison.mirrored (c : Comparison) : Comparison where
  newIssues := c.fixedIssues
  fixedIssues := c.newIssues
  deltas := c.deltas.map Delta.mirrored

/-- Issues that are in one project and not in another, each of them once and in order. -/
structure Only (p other : Project) (issues : List Issue) : Prop where
  mem : ∀ i, i ∈ issues ↔ p.issues.get? i.id = some i ∧ other.issues.get? i.id = none
  ordered : issues.Pairwise fun i j => i.id < j.id

/-- What a comparison tells of an earlier and a later project. -/
structure Compared (old new : Project) (c : Comparison) : Prop where
  newIssues : Only new old c.newIssues
  fixedIssues : Only old new c.fixedIssues
  /-- A file that is only in the later project is told of once, -/
  added : ∀ id f, old.files.get? id = none → new.files.get? id = some f →
    c.deltas.filter (·.path = f.path) = [⟨f.path, none, some f.hotness, f.hotness⟩]
  /-- and so is one that is only in the earlier project. -/
  removed : ∀ id b, old.files.get? id = some b → new.files.get? id = none →
    c.deltas.filter (·.path = b.path) = [⟨b.path, some b.hotness, none, -b.hotness⟩]
  /-- A file of both is told of once if its hotness has changed noticeably, and else not. -/
  kept : ∀ id b f, old.files.get? id = some b → new.files.get? id = some f →
    c.deltas.filter (·.path = f.path) = if tolerance < (f.hotness - b.hotness).abs then
      [⟨f.path, some b.hotness, some f.hotness, f.hotness - b.hotness⟩] else []
  unchanged : ∀ id b f, old.files.get? id = some b → new.files.get? id = some f →
    (f.hotness = b.hotness ∨ (f.hotness == b.hotness) = true) →
    c.deltas.filter (·.path = f.path) = []
  /-- Nothing else is told of. -/
  known : ∀ d ∈ c.deltas, (∃ b, old.file? d.path = some b) ∨ ∃ f, new.file? d.path = some f
  ordered : c.deltas.Pairwise fun a b => magnitude b.delta < magnitude a.delta ∨
    magnitude b.delta = magnitude a.delta ∧ a.path ≤ b.path

theorem only_filter {p other : Project} (known : Keyed p) :
    Only p other (p.issues.values.filter fun i => !other.issues.contains i.id) := by
  constructor
  case mem =>
    intro i
    rw [List.mem_filter, SortedMap.mem_values_of_keyed known.issues]
    simp [SortedMap.contains]
  case ordered =>
    have ordered : p.issues.values.Pairwise fun i j => i.id < j.id := by
      refine List.pairwise_map.mpr (p.issues.sorted.imp_of_mem fun {e e'} stored stored' less => ?_)
      rw [known.issues e.1 e.2 ((SortedMap.mem_entries _).mp stored),
        known.issues e'.1 e'.2 ((SortedMap.mem_entries _).mp stored')]
      exact compareOfLessAndEq_eq_lt.mp less
    exact ordered.filter _

/-- A comparison tells exactly of what has changed, and of each change once. In the other direction
it tells the same in the same order. -/
theorem compared_comparison {old new : Project} (known : Keyed old) (known' : Keyed new) :
    Compared old new (comparison old new) ∧
      comparison new old = (comparison old new).mirrored := by
  have filter := filter_path known known'
  have stored {p : Project} (known : Keyed p) {id : String} {f : File}
      (there : p.files.get? id = some f) : id = fileId f.path := by
    obtain ⟨atId, named⟩ := known.files id f there
    rw [← named, atId]
  have kept (id b f) (there : old.files.get? id = some b) (there' : new.files.get? id = some f) :
      (comparison old new).deltas.filter (·.path = f.path) =
        if tolerance < (f.hotness - b.hotness).abs then
          [⟨f.path, some b.hotness, some f.hotness, f.hotness - b.hotness⟩] else [] := by
    rw [filter, Project.file?, Project.file?, ← stored known' there', there, there', change?,
      changed?_some]
    split <;> rfl
  constructor
  · constructor
    case newIssues => exact only_filter known'
    case fixedIssues => exact only_filter known
    case added =>
      intro id f absent there
      rw [filter, Project.file?, Project.file?, ← stored known' there, absent, there]
      rfl
    case removed =>
      intro id b there absent
      rw [filter, Project.file?, Project.file?, ← stored known there, there, absent]
      rfl
    case kept => exact kept
    case unchanged =>
      intro id b f there there' equal
      rw [kept id b f there there', if_neg (not_tolerance_lt_of_equal equal)]
    case known =>
      intro d member
      rw [deltas_eq, List.mem_mergeSort, mem_changes_iff known known'] at member
      rcases path_of_change? member with ⟨f, there, -⟩ | ⟨-, b, there, -⟩
      · exact .inr ⟨f, there⟩
      · exact .inl ⟨b, there⟩
    case ordered => exact (ordered_deltas _ _).imp order_isLE_iff.mp
  · exact congrArg (Comparison.mk _ _) (deltas_comm known known')

/-- Three files of which one goes, one stays, and one changes, with an issue. -/
def yesterday : Project where
  files := .ofList ([("a.py", 1.0), ("b.py", 0.25), ("c.py", 0.5)].map fun (path, hotness) =>
    (fileId path, { File.ofPath path with hotness }))
  issues := .ofList [(issueId .todo "b.py",
    { id := issueId .todo "b.py", kind := .todo, severity := .low, title := "b.py" })]

/-- A day later there is another file with an issue. -/
def today : Project where
  files := .ofList ([("b.py", 0.75), ("c.py", 0.5), ("d.py", 0.1)].map fun (path, hotness) =>
    (fileId path, { File.ofPath path with hotness }))
  issues := .ofList [(issueId .hotspot "d.py",
    { id := issueId .hotspot "d.py", kind := .hotspot, severity := .high, title := "d.py" })]

theorem keyed_of_entries {p : Project} (issues : ∀ e ∈ p.issues.entries, e.2.id = e.1)
    (files : ∀ e ∈ p.files.entries, e.2.id = e.1 ∧ e.2.id = fileId e.2.path) : Keyed p where
  issues id i stored := issues (id, i) ((SortedMap.mem_entries _).mpr stored)
  files id f stored := files (id, f) ((SortedMap.mem_entries _).mpr stored)

theorem keyed_yesterday : Keyed yesterday :=
  keyed_of_entries (by decide +kernel) (by decide +kernel)

theorem keyed_today : Keyed today := keyed_of_entries (by decide +kernel) (by decide +kernel)

theorem compared_today : Keyed yesterday ∧ Keyed today ∧
    (changes yesterday today).map (·.path) = ["b.py", "d.py", "a.py"] ∧
    Compared yesterday today (comparison yesterday today) ∧
    comparison today yesterday = (comparison yesterday today).mirrored :=
  ⟨keyed_yesterday, keyed_today, by decide +kernel, compared_comparison keyed_yesterday keyed_today⟩

end RepoAudit.Ranking
