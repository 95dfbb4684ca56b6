import RepoAudit.Proofs.Ordered.Gathering
import RepoAudit.Ranking.Plan

/-!
# What a plan tells of a project

A plan has one task for each file that calls for work, in the order in which they are to be done:
`planned_plan`. Sorting keeps to an order even if what is compared are not all numbers, so that this
holds of any hotness.
-/

namespace RepoAudit.Ranking

open Project

/-! ### Sorting -/

section Sorting

variable {α : Type} {le : α → α → Bool} {R : α → α → Prop}

/-- To merge keeps an order to which each comparison keeps. -/
theorem pairwise_merge (trans : ∀ a b c, R a b → R b c → R a c) (yes : ∀ a b, le a b = true → R a b)
    (no : ∀ a b, le a b = false → R b a) : ∀ {xs ys : List α}, xs.Pairwise R → ys.Pairwise R →
      (xs.merge ys le).Pairwise R
  | [], ys, _, ordered => by simpa using ordered
  | x :: xs, [], ordered, _ => by simpa using ordered
  | x :: xs, y :: ys, ordered, ordered' => by
    obtain ⟨first, tail⟩ := List.pairwise_cons.mp ordered
    obtain ⟨first', tail'⟩ := List.pairwise_cons.mp ordered'
    rw [List.cons_merge_cons]
    split
    · rename_i before
      refine List.pairwise_cons.mpr ⟨fun z member => ?_, pairwise_merge trans yes no tail ordered'⟩
      rcases List.mem_merge.mp member with left | right
      · exact first z left
      · rcases List.mem_cons.mp right with rfl | right
        · exact yes _ _ before
        · exact trans _ _ _ (yes _ _ before) (first' z right)
    · rename_i before
      have behind := no x y (by simpa using before)
      refine List.pairwise_cons.mpr ⟨fun z member => ?_, pairwise_merge trans yes no ordered tail'⟩
      rcases List.mem_merge.mp member with left | right
      · rcases List.mem_cons.mp left with rfl | left
        · exact behind
        · exact trans _ _ _ behind (first z left)
      · exact first' z right

theorem pairwise_mergeSort (trans : ∀ a b c, R a b → R b c → R a c)
    (yes : ∀ a b, le a b = true → R a b) (no : ∀ a b, le a b = false → R b a) (xs : List α) :
    (xs.mergeSort le).Pairwise R := by
  induction xs, le using List.mergeSort.induct with
  | case1 => simp
  | case2 => simp
  | case3 a b xs le halves _ _ first second =>
    rw [List.mergeSort]
    exact pairwise_merge trans yes no (first yes no) (second yes no)

end Sorting

/-! ### Tasks -/

/-- What the task for a file tells of the issues that are its causes. -/
structure Task.Sums (t : Task) (f : File) (causes : List Issue) : Prop where
  file : t.file = f.path
  hotness : t.hotness = f.hotness
  effort : t.effort = .ofLoc f.loc
  issues : t.issues = causes.map (·.id)
  /-- Each issue is a reason, and hotspots are the first ones. -/
  reasons : t.reasons = (causes.filter (·.kind == .hotspot)).map (fun _ => hotspotReason f) ++
    (causes.filter (·.kind != .hotspot)).map (·.title)
  hot : t.hot = true ↔ ∃ i ∈ causes, i.kind = .hotspot
  /-- A task is as grave as the gravest of the issues. -/
  gravest : ∃ i ∈ causes, i.severity = t.severity
  severity : ∀ i ∈ causes, i.severity.rank ≤ t.severity.rank

theorem task?_eq_none {f : File} {causes : List Issue} : task? f causes = none ↔ causes = [] := by
  cases causes <;> simp [task?]

theorem rank_le_max (a b : Severity) :
    a.rank ≤ (a.max b).rank ∧ b.rank ≤ (a.max b).rank ∧ (a.max b = a ∨ a.max b = b) := by
  unfold Severity.max
  split
  · exact ⟨by omega, le_rfl, .inr rfl⟩
  · exact ⟨le_rfl, by omega, .inl rfl⟩

/-- The gravest of several severities is one of them. -/
theorem foldl_max (first : Severity) (rest : List Issue) :
    let most := rest.foldl (fun s i => s.max i.severity) first
    (most = first ∨ ∃ i ∈ rest, i.severity = most) ∧ first.rank ≤ most.rank ∧
      ∀ i ∈ rest, i.severity.rank ≤ most.rank := by
  induction rest generalizing first with
  | nil => simp
  | cons i rest ih =>
    obtain ⟨attained, above, others⟩ := ih (first.max i.severity)
    obtain ⟨aboveFirst, aboveNext, either⟩ := rank_le_max first i.severity
    refine ⟨?_, aboveFirst.trans above, List.forall_mem_cons.mpr ⟨aboveNext.trans above, others⟩⟩
    rcases attained with same | ⟨j, member, same⟩
    · rcases either with kept | taken
      · exact .inl (same.trans kept)
      · exact .inr ⟨i, .head _, (same.trans taken).symm⟩
    · exact .inr ⟨j, .tail _ member, same⟩

theorem task?_cons (f : File) (first : Issue) (rest : List Issue) :
    let causes := first :: rest
    let hot := causes.filter (·.kind == .hotspot)
    task? f causes = some {
      file := f.path
      hot := !hot.isEmpty
      severity := rest.foldl (fun s i => s.max i.severity) first.severity
      hotness := f.hotness
      effort := .ofLoc f.loc
      reasons := hot.map (fun _ => hotspotReason f) ++
        (causes.filter (·.kind != .hotspot)).map (·.title)
      issues := causes.map (·.id) } := by
  simp only [task?, List.partition_eq_filter_filter]
  rfl

theorem sums_of_task? {f : File} {causes : List Issue} {t : Task}
    (made : task? f causes = some t) : t.Sums f causes := by
  cases causes with
  | nil => cases made
  | cons first rest =>
    rw [task?_cons] at made
    obtain rfl := Option.some.inj made
    obtain ⟨attained, above, others⟩ := foldl_max first.severity rest
    constructor
    case file | hotness | effort | issues | reasons => rfl
    case hot =>
      rw [Bool.not_eq_true', List.isEmpty_eq_false_iff, ne_eq, List.filter_eq_nil_iff]
      simp only [beq_iff_eq, not_forall, not_not, exists_prop]
    case gravest =>
      rcases attained with same | ⟨i, member, same⟩
      · exact ⟨first, .head _, same.symm⟩
      · exact ⟨i, .tail _ member, same⟩
    case severity => exact List.forall_mem_cons.mpr ⟨above, others⟩

/-! ### The order of tasks -/

/-- Files with hotspots come first; others are ordered by severity, and then by path. -/
structure Task.Before (a b : Task) : Prop where
  hot : b.hot = true → a.hot = true
  cold : a.hot = false → b.hot = false → b.severity.rank < a.severity.rank ∨
    b.severity.rank = a.severity.rank ∧ a.file ≤ b.file

theorem Task.Before.trans {a b c : Task} (first : a.Before b) (second : b.Before c) : a.Before c := by
  refine ⟨fun hot => first.hot (second.hot hot), fun cold cold' => ?_⟩
  have between : b.hot = false := by
    cases hot : b.hot with
    | false => rfl
    | true => rw [first.hot hot] at cold; cases cold
  rcases first.cold cold between with graver | ⟨same, paths⟩
  · rcases second.cold between cold' with graver' | ⟨same', -⟩
    · exact .inl (graver'.trans graver)
    · exact .inl (same' ▸ graver)
  · rcases second.cold between cold' with graver' | ⟨same', paths'⟩
    · exact .inl (same ▸ graver')
    · exact .inr ⟨same'.trans same, paths.trans paths'⟩

theorem order_of_cold {a b : Task} (cold : a.hot = false) (cold' : b.hot = false) :
    a.order b = (compare b.severity.rank a.severity.rank).then (compare a.file b.file) := by
  rw [Task.order, cold, cold']
  rfl

theorem order_of_hot {a b : Task} (hot : a.hot = true) (cold : b.hot = false) :
    a.order b = .lt ∧ b.order a = .gt := by
  rw [Task.order, Task.order, hot, cold]
  exact ⟨rfl, rfl⟩

theorem before_of_order {a b : Task} (le : (a.order b).isLE = true) : a.Before b := by
  constructor
  case hot =>
    intro hot
    by_contra cold
    rw [(order_of_hot hot (Bool.eq_false_iff.mpr cold)).2] at le
    cases le
  case cold =>
    intro cold cold'
    rw [order_of_cold cold cold', Ordering.isLE_then_iff_or, Nat.compare_eq_lt,
      Nat.compare_eq_eq, Ordering.isLE_iff_ne_gt, ← ne_eq, compare_le_iff_le] at le
    exact le

theorem before_of_not_order {a b : Task} (greater : (a.order b).isLE = false) : b.Before a := by
  constructor
  case hot =>
    intro hot
    by_contra cold
    rw [(order_of_hot hot (Bool.eq_false_iff.mpr cold)).1] at greater
    cases greater
  case cold =>
    intro cold cold'
    rw [order_of_cold cold' cold, Bool.eq_false_iff, ne_eq, Ordering.isLE_then_iff_or,
      Nat.compare_eq_lt, Nat.compare_eq_eq, Ordering.isLE_iff_ne_gt, ← ne_eq,
      compare_le_iff_le] at greater
    obtain ⟨least, paths⟩ := not_or.mp greater
    rcases (Nat.le_of_not_lt least).lt_or_eq with less | same
    · exact .inl less
    · exact .inr ⟨same, (le_total b.file a.file).resolve_right fun le => paths ⟨same.symm, le⟩⟩

/-! ### Plans -/

/-- An issue calls for work on a file. -/
def CallsFor (p : Project) (f : File) (i : Issue) : Prop :=
  p.issues.get? i.id = some i ∧ i.file = some f.id ∧
    (i.kind = .hotspot ∨ i.kind = .todo ∧ Severity.medium.rank ≤ i.severity.rank)

/-- The task for a file has exactly the issues that call for it as causes, each of them once. -/
def TaskOf (p : Project) (f : File) (t : Task) : Prop :=
  ∃ causes, (causes.map (·.id)).Nodup ∧ (∀ i, i ∈ causes ↔ CallsFor p f i) ∧ t.Sums f causes

/-- There is one task for each file for which something calls, and the tasks are in order. -/
structure Planned (p : Project) (ts : List Task) : Prop where
  tasks : ∃ files : List File, (files.map (·.id)).Nodup ∧
    (∀ f, f ∈ files ↔ p.files.get? f.id = some f ∧ ∃ i, CallsFor p f i) ∧
    List.Forall₂ (TaskOf p) files ts
  ordered : ts.Pairwise Task.Before

/-- The issues of a project that call for work on a file. -/
def calls (p : Project) (id : String) : List Issue :=
  (p.issues.values.filter isRelevant).filter (·.file == some id)

theorem isRelevant_iff {i : Issue} : isRelevant i = true ↔
    i.kind = .hotspot ∨ i.kind = .todo ∧ Severity.medium.rank ≤ i.severity.rank := by
  unfold isRelevant
  split <;> simp_all

theorem forall₂_filterMap {α β : Type} (g : α → Option β) (xs : List α) :
    List.Forall₂ (fun x y => g x = some y) (xs.filter fun x => (g x).isSome) (xs.filterMap g) := by
  induction xs with
  | nil => exact .nil
  | cons x rest ih =>
    cases made : g x with
    | none => simpa [made] using ih
    | some y => simpa [made] using ih

/-- Where elements correspond to those of a list, they correspond in some order to those of the list
in another order. -/
theorem exists_perm_forall₂ {α β : Type} {r : α → β → Prop} {xs : List α} {ys zs : List β}
    (each : List.Forall₂ r xs ys) (perm : ys.Perm zs) : ∃ ws, ws.Perm xs ∧ List.Forall₂ r ws zs := by
  have composed : Relation.Comp (List.Forall₂ r) List.Perm xs zs := ⟨ys, each, perm⟩
  rw [List.forall₂_comp_perm_eq_perm_comp_forall₂] at composed
  obtain ⟨ws, perm, each⟩ := composed
  exact ⟨ws, perm.symm, each⟩

section

variable {p : Project} (filed : ∀ id f, p.files.get? id = some f → f.id = id)
  (noted : ∀ id i, p.issues.get? id = some i → i.id = id)

include noted in
theorem mem_calls {f : File} {i : Issue} : i ∈ calls p f.id ↔ CallsFor p f i := by
  rw [calls, List.mem_filter, List.mem_filter, SortedMap.mem_values_of_keyed noted, isRelevant_iff,
    beq_iff_eq, CallsFor, and_assoc, and_comm (b := i.file = some f.id)]

include noted in
theorem nodup_calls (key : String) : ((calls p key).map (·.id)).Nodup := by
  exact (SortedMap.nodup_values noted).sublist
    ((List.filter_sublist.trans List.filter_sublist).map _)

include filed in
theorem tasks_eq : tasks p = (p.files.values.filterMap fun f => task? f (calls p f.id)).mergeSort
    fun a b => (a.order b).isLE := by
  have each : p.files.entries.filterMap (fun e => task? e.2 (calls p e.1)) =
      p.files.values.filterMap fun f => task? f (calls p f.id) := by
    rw [SortedMap.values, List.filterMap_map]
    refine List.filterMap_congr fun e stored => ?_
    rw [Function.comp_apply, filed e.1 e.2 ((SortedMap.mem_entries _).mp stored)]
  rw [← each]
  rfl

include noted in
theorem taskOf_task? {f : File} {t : Task} (made : task? f (calls p f.id) = some t) :
    TaskOf p f t :=
  ⟨calls p f.id, nodup_calls noted f.id, fun _ => mem_calls noted, sums_of_task? made⟩

include filed noted in
theorem planned_tasks : Planned p (tasks p) := by
  constructor
  case tasks =>
    have each := (forall₂_filterMap (fun f => task? f (calls p f.id)) p.files.values).imp
      fun f t => taskOf_task? noted
    obtain ⟨ordered, perm, each⟩ := exists_perm_forall₂ each (List.mergeSort_perm _ _).symm
    refine ⟨ordered, ?_, fun f => ?_, (tasks_eq filed).symm ▸ each⟩
    · exact (perm.map _).nodup_iff.mpr
        ((SortedMap.nodup_values filed).sublist (List.filter_sublist.map _))
    · have called : (task? f (calls p f.id)).isSome = true ↔ ∃ i, CallsFor p f i := by
        rw [Option.isSome_iff_ne_none, ne_eq, task?_eq_none, List.eq_nil_iff_forall_not_mem,
          not_forall]
        simp only [not_not, mem_calls noted]
      rw [perm.mem_iff, List.mem_filter, SortedMap.mem_values_of_keyed filed, called]
  case ordered =>
    rw [tasks_eq filed]
    exact pairwise_mergeSort (R := Task.Before) (fun _ _ _ => Task.Before.trans)
      (fun _ _ => before_of_order) (fun _ _ => before_of_not_order) _

end

theorem map_ranks (made : Plan) : made.ranks.map (·.1) = List.range' 1 made.tasks.length ∧
    made.ranks.map (·.2) = made.tasks := by
  rw [Plan.ranks]
  exact ⟨List.map_fst_zip (by simp), List.map_snd_zip (by simp)⟩

/-- A plan has one task for each file that something calls for work on, in order and numbered; a plan
with fewer tasks has the first ones. -/
theorem planned_plan (p : Project) (filed : ∀ id f, p.files.get? id = some f → f.id = id)
    (noted : ∀ id i, p.issues.get? id = some i → i.id = id) :
    Planned p (plan p none).tasks ∧
    (∀ k, (plan p (some k)).tasks = (plan p none).tasks.take k) ∧
    ∀ top, (plan p top).ranks.map (·.1) = List.range' 1 (plan p top).tasks.length ∧
      (plan p top).ranks.map (·.2) = (plan p top).tasks :=
  ⟨planned_tasks filed noted, fun _ => rfl, fun top => map_ranks (plan p top)⟩

/-- A file that is a hotspot and has markers, one with markers, and one that nothing calls for. -/
def backlog : Project where
  files := .ofList ([.ofPath "a.py", { File.ofPath "b.py" with hotness := 0.9 }, .ofPath "c.py"].map
    fun f : File => (f.id, f))
  issues := .ofList ([(.hotspot, "b.py", .high), (.todo, "b.py", .medium), (.todo, "a.py", .high),
    (.todo, "c.py", .low), (.todo, "gone.py", .high)].map
      fun (kind, path, severity) => (issueId kind path,
        { id := issueId kind path, kind, severity, title := path, description := ""
          file := some (fileId path) }))

theorem planned_plan_of_backlog : (∀ e ∈ backlog.files.entries, e.2.id = e.1) ∧
    (∀ e ∈ backlog.issues.entries, e.2.id = e.1) ∧ Planned backlog (plan backlog none).tasks ∧
    backlog.files.values.map (fun f => (calls backlog f.id).length) = [1, 2, 0] := by
  have filed : ∀ e ∈ backlog.files.entries, e.2.id = e.1 := by decide +kernel
  have noted : ∀ e ∈ backlog.issues.entries, e.2.id = e.1 := by decide +kernel
  have planned := planned_plan backlog
    (fun id f stored => filed (id, f) ((SortedMap.mem_entries _).mpr stored))
    fun id i stored => noted (id, i) ((SortedMap.mem_entries _).mpr stored)
  exact ⟨filed, noted, planned.1, by decide +kernel⟩

end RepoAudit.Ranking
