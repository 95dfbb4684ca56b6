/-!
# Maps in key order

A finite map kept as a list of entries with strictly increasing keys. Two maps that answer
every look-up alike are equal, so a map shows what is stored and not how it was built.
-/

namespace RepoAudit

universe u v w

/-- A finite map; the entries are listed by strictly increasing key. -/
structure SortedMap (κ : Type u) (α : Type v) [Ord κ] where
  entries : List (κ × α)
  sorted : entries.Pairwise (fun x y => compare x.1 y.1 = .lt)

namespace SortedMap

variable {κ : Type u} {α : Type v} {β : Type w} [Ord κ]

/-! ### Entries in key order -/

/-- The value stored under `k` in a list of entries. -/
def lookup (k : κ) : List (κ × α) → Option α
  | [] => none
  | (k', v) :: rest => if compare k k' = .eq then some v else lookup k rest

/-- Replaces what is stored under `k` by what `f` makes of it; `none` is absence. -/
def alterEntries (k : κ) (f : Option α → Option α) : List (κ × α) → List (κ × α)
  | [] => match f none with
    | some v => [(k, v)]
    | none => []
  | (k', v') :: rest => match compare k k' with
    | .lt => match f none with
      | some v => (k, v) :: (k', v') :: rest
      | none => (k', v') :: rest
    | .eq => match f (some v') with
      | some v => (k', v) :: rest
      | none => rest
    | .gt => (k', v') :: alterEntries k f rest

theorem key_of_mem_alterEntries {k : κ} {f : Option α → Option α} {e : κ × α} :
    ∀ {es : List (κ × α)}, e ∈ alterEntries k f es →
      compare k e.1 = .eq ∨ e.1 = k ∨ ∃ v, (e.1, v) ∈ es
  | [], h => by
    unfold alterEntries at h
    split at h
    · rename_i v _
      simp only [List.mem_singleton] at h
      exact .inr (.inl (by rw [h]))
    · simp at h
  | (k', v') :: rest, h => by
    unfold alterEntries at h
    split at h
    · split at h
      · rcases List.mem_cons.mp h with rfl | h
        · exact .inr (.inl rfl)
        · exact .inr (.inr ⟨e.2, h⟩)
      · exact .inr (.inr ⟨e.2, h⟩)
    · rename_i same
      split at h
      · rcases List.mem_cons.mp h with rfl | h
        · exact .inl same
        · exact .inr (.inr ⟨e.2, .tail _ h⟩)
      · exact .inr (.inr ⟨e.2, .tail _ h⟩)
    · rcases List.mem_cons.mp h with rfl | h
      · exact .inr (.inr ⟨v', .head _⟩)
      · rcases key_of_mem_alterEntries h with same | same | ⟨v, member⟩
        · exact .inl same
        · exact .inr (.inl same)
        · exact .inr (.inr ⟨v, .tail _ member⟩)

theorem alterEntries_sorted [Std.TransOrd κ] (k : κ) (f : Option α → Option α) :
    ∀ {es : List (κ × α)}, es.Pairwise (fun x y => compare x.1 y.1 = .lt) →
      (alterEntries k f es).Pairwise (fun x y => compare x.1 y.1 = .lt)
  | [], _ => by unfold alterEntries; split <;> simp
  | (k', v') :: rest, h => by
    have ⟨first, tail⟩ := List.pairwise_cons.mp h
    unfold alterEntries
    split
    · rename_i less
      split
      · refine List.pairwise_cons.mpr ⟨fun e member => ?_, h⟩
        rcases List.mem_cons.mp member with rfl | member
        · exact less
        · exact Std.TransCmp.lt_trans less (first e member)
      · exact h
    · split
      · exact List.pairwise_cons.mpr ⟨first, tail⟩
      · exact tail
    · rename_i greater
      refine List.pairwise_cons.mpr ⟨fun e member => ?_, alterEntries_sorted k f tail⟩
      have below : compare k' k = .lt := Std.OrientedCmp.gt_iff_lt.mp greater
      rcases key_of_mem_alterEntries member with same | same | ⟨v, old⟩
      · show compare k' e.1 = .lt
        rw [← Std.TransCmp.congr_right same]
        exact below
      · show compare k' e.1 = .lt
        rw [same]
        exact below
      · exact first (e.1, v) old

/-! ### Operations -/

/-- The map without entries. -/
def empty : SortedMap κ α := ⟨[], .nil⟩

instance : EmptyCollection (SortedMap κ α) := ⟨empty⟩

instance : Inhabited (SortedMap κ α) := ⟨empty⟩

/-- The value stored under a key. -/
def get? (m : SortedMap κ α) (k : κ) : Option α := lookup k m.entries

/-- Whether a key is stored. -/
def contains (m : SortedMap κ α) (k : κ) : Bool := (m.get? k).isSome

/-- Replaces what is stored under `k` by what `f` makes of it; `none` is absence. -/
def alter [Std.TransOrd κ] (m : SortedMap κ α) (k : κ) (f : Option α → Option α) :
    SortedMap κ α :=
  ⟨alterEntries k f m.entries, alterEntries_sorted k f m.sorted⟩

/-- Stores `v` under `k`, in place of any earlier value. -/
def insert [Std.TransOrd κ] (m : SortedMap κ α) (k : κ) (v : α) : SortedMap κ α :=
  m.alter k fun _ => some v

/-- Removes a key. -/
def erase [Std.TransOrd κ] (m : SortedMap κ α) (k : κ) : SortedMap κ α :=
  m.alter k fun _ => none

/-- Changes the value stored under `k`, if there is one. -/
def modify [Std.TransOrd κ] (m : SortedMap κ α) (k : κ) (f : α → α) : SortedMap κ α :=
  m.alter k (·.map f)

/-- Keeps the entries that satisfy `p`. -/
def filter (m : SortedMap κ α) (p : κ → α → Bool) : SortedMap κ α :=
  ⟨m.entries.filter fun e => p e.1 e.2, m.sorted.filter _⟩

/-- Changes every value. -/
def mapValues (m : SortedMap κ α) (f : κ → α → β) : SortedMap κ β :=
  ⟨m.entries.map fun e => (e.1, f e.1 e.2), m.sorted.map _ fun _ _ h => h⟩

/-- The keys in increasing order. -/
def keys (m : SortedMap κ α) : List κ := m.entries.map (·.1)

/-- The values in the order of their keys. -/
def values (m : SortedMap κ α) : List α := m.entries.map (·.2)

/-- The number of entries. -/
def size (m : SortedMap κ α) : Nat := m.entries.length

def isEmpty (m : SortedMap κ α) : Bool := m.entries.isEmpty

/-- Inserts the entries of a list one after another; of two equal keys the later one stays. -/
def ofList [Std.TransOrd κ] (es : List (κ × α)) : SortedMap κ α :=
  es.foldl (fun m e => m.insert e.1 e.2) ∅

instance [DecidableEq κ] [DecidableEq α] : DecidableEq (SortedMap κ α) := fun a b =>
  if h : a.entries = b.entries then isTrue (by cases a; cases b; simp_all)
  else isFalse fun same => h (by rw [same])

/-! ### What is stored

Keys that compare as equal are equal here, so that a map is a function from keys. -/

@[simp] theorem get?_empty (k : κ) : (∅ : SortedMap κ α).get? k = none := rfl

theorem exists_entry {m : SortedMap κ α} (filled : m ≠ ∅) : ∃ e, e ∈ m.entries := by
  obtain ⟨entries, sorted⟩ := m
  cases entries with
  | nil => exact absurd rfl filled
  | cons e rest => exact ⟨e, List.mem_cons_self⟩

theorem lookup_of_first_greater {k : κ} :
    ∀ {es : List (κ × α)}, (∀ e ∈ es, compare k e.1 = .lt) → lookup k es = none
  | [], _ => rfl
  | (k', v') :: rest, above => by
    have less : compare k k' = .lt := above _ (.head _)
    simp only [lookup, less, reduceCtorEq, if_false]
    exact lookup_of_first_greater fun e member => above e (.tail _ member)

section Lawful

variable [Std.LawfulEqOrd κ]

theorem lookup_alterEntries_other {k other : κ} (different : other ≠ k) (f : Option α → Option α) :
    ∀ {es : List (κ × α)}, lookup other (alterEntries k f es) = lookup other es
  | [] => by
    unfold alterEntries
    split <;> simp [lookup, different]
  | (k', v') :: rest => by
    unfold alterEntries
    split
    · split <;> simp [lookup, different]
    · rename_i same
      obtain rfl := Std.LawfulEqCmp.eq_of_compare same
      split <;> simp [lookup, different]
    · simp only [lookup]
      split
      · rfl
      · exact lookup_alterEntries_other different f

theorem mem_iff_lookup {k : κ} {v : α} :
    ∀ {es : List (κ × α)}, es.Pairwise (fun x y => compare x.1 y.1 = .lt) →
      ((k, v) ∈ es ↔ lookup k es = some v)
  | [], _ => by simp [lookup]
  | (k', v') :: rest, sorted => by
    have ⟨first, tail⟩ := List.pairwise_cons.mp sorted
    rw [List.mem_cons, mem_iff_lookup tail, lookup]
    by_cases same : k = k'
    · subst same
      have absent : lookup k rest = none := lookup_of_first_greater first
      simp [absent, eq_comm]
    · simp [same]

theorem mem_entries (m : SortedMap κ α) {k : κ} {v : α} :
    (k, v) ∈ m.entries ↔ m.get? k = some v :=
  mem_iff_lookup m.sorted

theorem get?_filter (m : SortedMap κ α) (p : κ → α → Bool) (k : κ) :
    (m.filter p).get? k = (m.get? k).filter (p k) := by
  ext v
  rw [← mem_entries, filter, List.mem_filter, mem_entries, Option.filter_eq_some_iff]

theorem get?_mapValues (m : SortedMap κ α) (f : κ → α → β) (k : κ) :
    (m.mapValues f).get? k = (m.get? k).map (f k) := by
  ext v
  rw [← mem_entries, mapValues, List.mem_map, Option.map_eq_some_iff]
  constructor
  · rintro ⟨⟨k', v'⟩, stored, same⟩
    obtain ⟨rfl, rfl⟩ := Prod.mk.inj same
    exact ⟨v', (mem_entries m).mp stored, rfl⟩
  · rintro ⟨v', found, rfl⟩
    exact ⟨(k, v'), (mem_entries m).mpr found, rfl⟩

variable [Std.TransOrd κ]

theorem lookup_alterEntries_same (k : κ) (f : Option α → Option α) :
    ∀ {es : List (κ × α)}, es.Pairwise (fun x y => compare x.1 y.1 = .lt) →
      lookup k (alterEntries k f es) = f (lookup k es)
  | [], _ => by
    unfold alterEntries
    split <;> simp_all [lookup]
  | (k', v') :: rest, sorted => by
    have ⟨first, tail⟩ := List.pairwise_cons.mp sorted
    unfold alterEntries
    split
    · rename_i less
      have absent : lookup k ((k', v') :: rest) = none := lookup_of_first_greater fun e member => by
        rcases List.mem_cons.mp member with rfl | member
        · exact less
        · exact Std.TransCmp.lt_trans less (first e member)
      rw [absent]
      split
      · rename_i v found
        simp [lookup, found]
      · rename_i found
        rw [absent, found]
    · rename_i same
      obtain rfl := Std.LawfulEqCmp.eq_of_compare same
      have absent : lookup k rest = none := lookup_of_first_greater first
      simp only [lookup, Std.ReflCmp.compare_self, if_true]
      split <;> simp_all [lookup]
    · rename_i greater
      simp only [lookup, greater, reduceCtorEq, if_false]
      exact lookup_alterEntries_same k f tail

variable (m : SortedMap κ α)

@[simp] theorem get?_alter_same (k : κ) (f : Option α → Option α) :
    (m.alter k f).get? k = f (m.get? k) :=
  lookup_alterEntries_same k f m.sorted

theorem get?_alter_other {k other : κ} (different : other ≠ k) (f : Option α → Option α) :
    (m.alter k f).get? other = m.get? other :=
  lookup_alterEntries_other different f

theorem get?_alter [DecidableEq κ] (k other : κ) (f : Option α → Option α) :
    (m.alter k f).get? other = if other = k then f (m.get? k) else m.get? other := by
  split
  · rename_i same
    rw [same, get?_alter_same]
  · rename_i different
    exact get?_alter_other m different f

theorem get?_insert [DecidableEq κ] (k other : κ) (v : α) :
    (m.insert k v).get? other = if other = k then some v else m.get? other :=
  get?_alter m k other _

theorem get?_modify [DecidableEq κ] (k other : κ) (f : α → α) :
    (m.modify k f).get? other = if other = k then (m.get? other).map f else m.get? other := by
  rw [modify, get?_alter]
  split
  · rename_i same
    rw [same]
  · rfl

/-- Maps with the same look-ups are equal. -/
theorem ext_get? {a b : SortedMap κ α} (same : ∀ k, a.get? k = b.get? k) : a = b := by
  obtain ⟨as, sorted⟩ := a
  obtain ⟨bs, sorted'⟩ := b
  congr
  have members : ∀ e, e ∈ as ↔ e ∈ bs := fun (k, v) => by
    have found : lookup k as = lookup k bs := same k
    rw [mem_iff_lookup sorted, mem_iff_lookup sorted', found]
  have irreflexive : ∀ x y : κ × α, compare x.1 y.1 = .lt → x ≠ y := by
    rintro x y less rfl
    simp at less
  exact (List.perm_ext_iff_of_nodup (sorted.imp (irreflexive _ _)) (sorted'.imp (irreflexive _ _))
    |>.mpr members).eq_of_pairwise
    (fun x y _ _ less less' => by simp [Std.OrientedCmp.gt_iff_lt.mpr less] at less')
    sorted sorted'

theorem get?_insertEntries [DecidableEq κ] (k : κ) : ∀ {es : List (κ × α)} (m : SortedMap κ α),
    es.Pairwise (fun x y => compare x.1 y.1 = .lt) →
      (es.foldl (fun m e => m.insert e.1 e.2) m).get? k = (lookup k es).or (m.get? k)
  | [], _, _ => rfl
  | (k', v) :: rest, m, sorted => by
    have ⟨first, tail⟩ := List.pairwise_cons.mp sorted
    rw [List.foldl_cons, get?_insertEntries k _ tail, get?_insert, lookup]
    by_cases same : k = k'
    · subst same
      have absent : lookup k rest = none := lookup_of_first_greater first
      simp [absent]
    · simp [same]

/-- A map is made of its entries. -/
theorem ofList_entries [DecidableEq κ] (m : SortedMap κ α) : ofList m.entries = m :=
  ext_get? fun k => by
    rw [ofList, get?_insertEntries k ∅ m.sorted, get?_empty, Option.or_none, get?]

end Lawful

end SortedMap
end RepoAudit
