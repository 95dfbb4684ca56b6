import Mathlib
import RepoAudit.Ordered.Map
import RepoAudit.Ordered.Set

/-!
# Maps gathered from a list

A map is gathered from a list when each element changes what is stored under its key. Each key then
tells only of the elements that have it, and a sum over the map is a sum over the list.
-/

namespace RepoAudit.SortedMap

universe u v w

variable {κ : Type u} {α : Type v} {ε : Type w}

/-! ### Sums by groups -/

/-- A sum over a list, taken first over the elements of each key and then over the keys. -/
theorem sum_groups [DecidableEq κ] (key : ε → κ) (x : ε → Nat) {keys : List κ}
    (nodup : keys.Nodup) {es : List ε} (covered : ∀ e ∈ es, key e ∈ keys) :
    (keys.map fun k => ((es.filter (key · = k)).map x).sum).sum = (es.map x).sum := by
  induction es with
  | nil => simp
  | cons e rest ih =>
    have step (k : κ) : (((e :: rest).filter (key · = k)).map x).sum =
        (if key e = k then x e else 0) + ((rest.filter (key · = k)).map x).sum := by
      by_cases same : key e = k <;> simp [same]
    -- keys do not repeat, so the first element counts under exactly one of them
    have once : (keys.map fun k => if key e = k then x e else 0).sum = x e := by
      rw [List.sum_map_eq_nsmul_single (key e) _ fun k other _ => if_neg other.symm,
        List.count_eq_one_of_mem nodup (covered e List.mem_cons_self), one_nsmul, if_pos rfl]
    simp only [step]
    rw [List.sum_map_add, once, ih fun e' later => covered e' (List.mem_cons_of_mem e later),
      List.map_cons, List.sum_cons]

/-- Counting up from nothing gives a sum, unless there is nothing to count. -/
theorem foldl_some_add {M : Type v} [AddMonoid M] (x : ε → M) (es : List ε) :
    es.foldl (fun before e => some (before.getD 0 + x e)) none =
      if es = [] then none else some (es.map x).sum := by
  have onward (es : List ε) (m : M) :
      es.foldl (fun before e => some (before.getD 0 + x e)) (some m) =
        some (m + (es.map x).sum) := by
    induction es generalizing m with
    | nil => simp
    | cons e rest ih => rw [List.foldl_cons, Option.getD_some, ih, List.map_cons, List.sum_cons,
        add_assoc]
  cases es with
  | nil => rfl
  | cons e rest =>
    rw [List.foldl_cons, Option.getD_none, zero_add, onward, if_neg (List.cons_ne_nil e rest),
      List.map_cons, List.sum_cons]

/-! ### What is gathered -/

variable [Ord κ]

theorem values_mapValues {β : Type w} (m : SortedMap κ α) (f : κ → α → β) :
    (m.mapValues f).values = m.entries.map fun e => f e.1 e.2 :=
  List.map_map

theorem mapValues_mapValues {β γ : Type w} (m : SortedMap κ α) (f : κ → α → β) (g : κ → β → γ) :
    (m.mapValues f).mapValues g = m.mapValues fun k v => g k (f k v) := by
  simp only [mapValues, List.map_map]
  rfl

/-- What is read off the values does not show a change that it does not depend on. -/
theorem map_values_mapValues {β : Type w} {m : SortedMap κ α} {g : κ → α → α} {x : α → β}
    (same : ∀ k v, x (g k v) = x v) : (m.mapValues g).values.map x = m.values.map x := by
  rw [values_mapValues, values, List.map_map, List.map_map]
  exact List.map_congr_left fun (k, v) _ => same k v

theorem filterMap_values_mapValues {β : Type w} {m : SortedMap κ α} {g : κ → α → α}
    {x : α → Option β} (same : ∀ k v, x (g k v) = x v) :
    (m.mapValues g).values.filterMap x = m.values.filterMap x := by
  rw [values_mapValues, values, List.filterMap_map, List.filterMap_map]
  exact List.filterMap_congr fun (k, v) _ => same k v

variable [Std.LawfulEqOrd κ]

theorem mapValues_congr {β : Type w} {m : SortedMap κ α} {f g : κ → α → β}
    (same : ∀ k v, m.get? k = some v → f k v = g k v) : m.mapValues f = m.mapValues g := by
  simp only [mapValues, mk.injEq]
  refine List.map_congr_left fun entry stored => ?_
  rw [same entry.1 entry.2 ((mem_entries m).mp stored)]

theorem mem_keys {m : SortedMap κ α} {k : κ} : k ∈ m.keys ↔ ∃ v, m.get? k = some v := by
  simp [keys, mem_entries]

theorem mem_values {m : SortedMap κ α} {v : α} : v ∈ m.values ↔ ∃ k, m.get? k = some v := by
  simp [values, mem_entries]

theorem nodup_keys (m : SortedMap κ α) : m.keys.Nodup := by
  refine List.pairwise_map.mpr (m.sorted.imp fun less same => ?_)
  simp [same] at less

/-- Values that are stored under keys of their own. -/
theorem nodup_values {m : SortedMap κ α} {key : α → κ}
    (keyed : ∀ k v, m.get? k = some v → key v = k) : (m.values.map key).Nodup := by
  have keys : m.values.map key = m.keys := by
    rw [values, SortedMap.keys, List.map_map]
    exact List.map_congr_left fun e stored => keyed e.1 e.2 ((mem_entries _).mp stored)
  rw [keys]
  exact m.nodup_keys

theorem mem_values_of_keyed {m : SortedMap κ α} {key : α → κ}
    (keyed : ∀ k v, m.get? k = some v → key v = k) {v : α} :
    v ∈ m.values ↔ m.get? (key v) = some v := by
  rw [mem_values]
  exact ⟨fun ⟨k, stored⟩ => (keyed k v stored).symm ▸ stored, fun stored => ⟨_, stored⟩⟩

/-- A sum over a map that tells under each key of the elements that have it. -/
theorem sum_gathered [DecidableEq κ] {m : SortedMap κ α} (key : ε → κ) (es : List ε)
    (g : α → Nat) (x : ε → Nat) (covered : ∀ e ∈ es, key e ∈ m.keys)
    (each : ∀ k v, m.get? k = some v → g v = ((es.filter (key · = k)).map x).sum) :
    (m.values.map g).sum = (es.map x).sum := by
  have byKey : m.values.map g = m.keys.map fun k => ((es.filter (key · = k)).map x).sum := by
    rw [values, keys, List.map_map, List.map_map]
    exact List.map_congr_left fun (k, v) stored => each k v ((mem_entries m).mp stored)
  rw [byKey, sum_groups key x m.nodup_keys covered]

variable [Std.TransOrd κ]

theorem keys_eq_toList {m : SortedMap κ α} {s : SortedSet κ} (same : ∀ k, k ∈ m.keys ↔ k ∈ s) :
    m.keys = s.toList :=
  congrArg SortedSet.elems
    (SortedSet.ext_mem (s := ⟨m.keys, m.sorted.map _ fun _ _ less => less⟩) same)

variable [DecidableEq κ]

/-- What is stored under a key comes from the elements with this key. -/
theorem get?_gathered (key : ε → κ) (step : ε → Option α → α) (es : List ε) (m : SortedMap κ α)
    (k : κ) : (es.foldl (fun m e => m.alter (key e) fun before => some (step e before)) m).get? k =
      (es.filter (key · = k)).foldl (fun before e => some (step e before)) (m.get? k) := by
  induction es generalizing m with
  | nil => rfl
  | cons e rest ih =>
    rw [List.foldl_cons, ih, get?_alter]
    by_cases same : key e = k
    · simp [same]
    · simp [same, Ne.symm same]

/-- The last entry with a key is the one that stays. -/
theorem get?_ofList (es : List (κ × α)) (k : κ) :
    (ofList es).get? k = ((es.filter (·.1 = k)).getLast?).map (·.2) := by
  have last (es : List (κ × α)) (v? : Option α) :
      es.foldl (fun _ e => some e.2) v? = (es.getLast?.map (·.2)).or v? := by
    rcases List.eq_nil_or_concat es with rfl | ⟨before, e, rfl⟩
    · rfl
    · simp
  have gathered := get?_gathered Prod.fst (fun (e : κ × α) _ => e.2) es ∅ k
  rw [last, get?_empty, Option.or_none] at gathered
  exact gathered

theorem mapValues_ofList {β : Type w} (es : List (κ × α)) (f : κ → α → β) :
    (ofList es).mapValues f = ofList (es.map fun e => (e.1, f e.1 e.2)) := by
  refine ext_get? fun k => ?_
  rw [get?_mapValues, get?_ofList, get?_ofList, List.filter_map, List.getLast?_map, Option.map_map,
    Option.map_map]
  refine Option.map_congr fun e last => ?_
  have own := (List.mem_filter.mp (List.mem_of_getLast? last)).2
  rw [← of_decide_eq_true own]
  rfl

theorem mem_of_get?_ofList {es : List (κ × α)} {k : κ} {v : α} (found : (ofList es).get? k = some v) :
    (k, v) ∈ es := by
  rw [get?_ofList] at found
  obtain ⟨e, last, rfl⟩ := Option.map_eq_some_iff.mp found
  obtain ⟨member, same⟩ := List.mem_filter.mp (List.mem_of_getLast? last)
  exact of_decide_eq_true same ▸ member

/-- Entries with different keys are all stored. -/
theorem entries_ofList_perm {es : List (κ × α)} (distinct : (es.map (·.1)).Nodup) :
    (ofList es).entries.Perm es := by
  have irreflexive (m : SortedMap κ α) : m.entries.Nodup := m.nodup_keys.of_map _
  refine (List.perm_ext_iff_of_nodup (irreflexive _) (distinct.of_map _)).mpr fun (k, v) => ?_
  rw [mem_entries, get?_ofList]
  have ofLast {e : κ × α} (last : (es.filter (·.1 = k)).getLast? = some e) : e ∈ es ∧ e.1 = k := by
    simpa using List.mem_filter.mp (List.mem_of_getLast? last)
  constructor
  · intro found
    obtain ⟨e, last, rfl⟩ := Option.map_eq_some_iff.mp found
    obtain ⟨member, rfl⟩ := ofLast last
    exact member
  · intro member
    have filled : es.filter (·.1 = k) ≠ [] :=
      List.ne_nil_of_mem (List.mem_filter.mpr ⟨member, decide_eq_true rfl⟩)
    obtain ⟨e, last⟩ : ∃ e, (es.filter (·.1 = k)).getLast? = some e :=
      ⟨_, List.getLast?_eq_some_getLast filled⟩
    obtain ⟨stored, same⟩ := ofLast last
    rw [last, List.inj_on_of_nodup_map distinct stored member same]
    rfl

/-- The order of entries with different keys does not matter. -/
theorem ofList_perm {es es' : List (κ × α)} (distinct : (es.map (·.1)).Nodup)
    (perm : es.Perm es') : ofList es = ofList es' := by
  have distinct' : (es'.map (·.1)).Nodup := (perm.map _).nodup_iff.mp distinct
  refine ext_get? fun k => Option.ext fun v => ?_
  rw [← mem_entries, ← mem_entries, (entries_ofList_perm distinct).mem_iff, perm.mem_iff,
    (entries_ofList_perm distinct').mem_iff]

end RepoAudit.SortedMap
