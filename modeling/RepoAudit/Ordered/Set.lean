/-!
# Sets in order

A finite set kept as a strictly increasing list. Two sets with the same members are equal.
-/

namespace RepoAudit

universe u

/-- A finite set; its elements are listed in strictly increasing order. -/
structure SortedSet (α : Type u) [Ord α] where
  elems : List α
  sorted : elems.Pairwise (fun x y => compare x y = .lt)

namespace SortedSet

variable {α : Type u} [Ord α]

/-! ### Elements in order -/

/-- Adds an element at its place unless an equal one is there. -/
def insertElem (a : α) : List α → List α
  | [] => [a]
  | b :: rest => match compare a b with
    | .lt => a :: b :: rest
    | .eq => b :: rest
    | .gt => b :: insertElem a rest

theorem mem_insertElem_cases {a x : α} :
    ∀ {xs : List α}, x ∈ insertElem a xs → x = a ∨ x ∈ xs
  | [], h => .inl (List.mem_singleton.mp h)
  | b :: rest, h => by
    unfold insertElem at h
    split at h
    · exact List.mem_cons.mp h
    · exact .inr h
    · rcases List.mem_cons.mp h with rfl | h
      · exact .inr (.head _)
      · exact (mem_insertElem_cases h).imp_right (.tail _)

theorem insertElem_sorted [Std.TransOrd α] (a : α) :
    ∀ {xs : List α}, xs.Pairwise (fun x y => compare x y = .lt) →
      (insertElem a xs).Pairwise (fun x y => compare x y = .lt)
  | [], _ => List.pairwise_singleton _ _
  | b :: rest, h => by
    have ⟨first, tail⟩ := List.pairwise_cons.mp h
    unfold insertElem
    split
    · rename_i less
      refine List.pairwise_cons.mpr ⟨fun x member => ?_, h⟩
      rcases List.mem_cons.mp member with rfl | member
      · exact less
      · exact Std.TransCmp.lt_trans less (first x member)
    · exact h
    · rename_i greater
      refine List.pairwise_cons.mpr ⟨fun x member => ?_, insertElem_sorted a tail⟩
      rcases mem_insertElem_cases member with rfl | member
      · exact Std.OrientedCmp.gt_iff_lt.mp greater
      · exact first x member

/-! ### Operations -/

/-- The set without elements. -/
def empty : SortedSet α := ⟨[], .nil⟩

instance : EmptyCollection (SortedSet α) := ⟨empty⟩

instance : Inhabited (SortedSet α) := ⟨empty⟩

instance : Membership α (SortedSet α) := ⟨fun s a => a ∈ s.elems⟩

/-- Whether an element equal to `a` is in the set. -/
def contains (s : SortedSet α) (a : α) : Bool := s.elems.any fun b => compare a b == .eq

def insert [Std.TransOrd α] (s : SortedSet α) (a : α) : SortedSet α :=
  ⟨insertElem a s.elems, insertElem_sorted a s.sorted⟩

/-- Adds the elements of a list one after another. -/
def insertMany [Std.TransOrd α] (s : SortedSet α) (xs : List α) : SortedSet α :=
  xs.foldl insert s

def ofList [Std.TransOrd α] (xs : List α) : SortedSet α := (∅ : SortedSet α).insertMany xs

/-- Keeps the elements that satisfy `p`. -/
def filter (s : SortedSet α) (p : α → Bool) : SortedSet α := ⟨s.elems.filter p, s.sorted.filter _⟩

def erase (s : SortedSet α) (a : α) : SortedSet α := s.filter fun b => compare a b != .eq

def toList (s : SortedSet α) : List α := s.elems

def size (s : SortedSet α) : Nat := s.elems.length

def isEmpty (s : SortedSet α) : Bool := s.elems.isEmpty

instance [DecidableEq α] : DecidableEq (SortedSet α) := fun a b =>
  if h : a.elems = b.elems then isTrue (by cases a; cases b; simp_all)
  else isFalse fun same => h (by rw [same])

/-! ### Members

Elements that compare as equal are equal here. -/

theorem mem_elems {s : SortedSet α} {a : α} : a ∈ s.elems ↔ a ∈ s := .rfl

@[simp] theorem mem_toList {s : SortedSet α} {a : α} : a ∈ s.toList ↔ a ∈ s := .rfl

@[simp] theorem not_mem_empty (a : α) : a ∉ (∅ : SortedSet α) := List.not_mem_nil

theorem exists_mem {s : SortedSet α} (filled : s ≠ ∅) : ∃ a, a ∈ s := by
  obtain ⟨elems, sorted⟩ := s
  cases elems with
  | nil => exact absurd rfl filled
  | cons a rest => exact ⟨a, List.mem_cons_self⟩

section Lawful

variable [Std.LawfulEqOrd α]

theorem mem_insertElem {a x : α} : ∀ {xs : List α}, x ∈ insertElem a xs ↔ x = a ∨ x ∈ xs
  | [] => by simp [insertElem]
  | b :: rest => by
    unfold insertElem
    split
    · rw [List.mem_cons]
    · rename_i same
      obtain rfl := Std.LawfulEqCmp.eq_of_compare same
      simp
    · rw [List.mem_cons, mem_insertElem, List.mem_cons]
      exact or_left_comm

@[simp] theorem contains_iff {s : SortedSet α} {a : α} : s.contains a = true ↔ a ∈ s := by
  simp [contains, ← mem_elems]

@[simp] theorem contains_eq_false {s : SortedSet α} {a : α} : s.contains a = false ↔ a ∉ s := by
  rw [← contains_iff, Bool.not_eq_true]

theorem nodup_toList (s : SortedSet α) : s.toList.Nodup :=
  s.sorted.imp fun {x y} less => by
    rintro rfl
    simp at less

theorem mem_erase {s : SortedSet α} {a x : α} : x ∈ s.erase a ↔ x ∈ s ∧ x ≠ a := by
  rw [← mem_elems, ← mem_elems, erase, filter, List.mem_filter, bne_iff_ne, ne_eq,
    Std.LawfulEqCmp.compare_eq_iff_eq, eq_comm]

variable [Std.TransOrd α]

theorem mem_insert {s : SortedSet α} {a x : α} : x ∈ s.insert a ↔ x = a ∨ x ∈ s :=
  mem_insertElem

theorem mem_insertMany {x : α} : ∀ {xs : List α} {s : SortedSet α},
    x ∈ s.insertMany xs ↔ x ∈ xs ∨ x ∈ s
  | [], s => by simp [insertMany]
  | a :: rest, s => by
    have ih : x ∈ (s.insert a).insertMany rest ↔ x ∈ rest ∨ x ∈ s.insert a := mem_insertMany
    rw [mem_insert] at ih
    rw [List.mem_cons]
    exact ih.trans (or_left_comm.trans or_assoc.symm)

@[simp] theorem mem_ofList {x : α} {xs : List α} : x ∈ ofList xs ↔ x ∈ xs := by
  simp [ofList, mem_insertMany]

/-- A search stops at the least element that it looks for. -/
theorem find?_toList_eq_some_iff {s : SortedSet α} {p : α → Bool} {a : α} :
    s.toList.find? p = some a ↔
      p a = true ∧ a ∈ s ∧ ∀ b ∈ s, compare b a = .lt → p b = false := by
  rw [List.find?_eq_some_iff_append]
  refine and_congr_right fun _ => ⟨?_, ?_⟩
  · rintro ⟨before, after, split, others⟩
    have listed : a ∈ s.toList := split ▸ by simp
    refine ⟨listed, fun b member less => ?_⟩
    have sorted := s.sorted
    rw [← toList, split, List.pairwise_append, List.pairwise_cons] at sorted
    have member : b ∈ before ++ a :: after := split ▸ member
    rcases List.mem_append.mp member with earlier | later
    · simpa using others b earlier
    · rcases List.mem_cons.mp later with rfl | later
      · simp at less
      · have greater := sorted.2.1.1 b later
        rw [Std.OrientedCmp.gt_iff_lt.mpr less] at greater
        cases greater
  · rintro ⟨member, least⟩
    obtain ⟨before, after, split⟩ := List.append_of_mem (mem_toList.mpr member)
    refine ⟨before, after, split, fun b earlier => ?_⟩
    have sorted := s.sorted
    rw [← toList, split, List.pairwise_append] at sorted
    have listed : b ∈ s.toList := split ▸ List.mem_append_left _ earlier
    simp [least b listed (sorted.2.2 b earlier a (.head _))]

/-- Sets with the same members are equal. -/
theorem ext_mem {s t : SortedSet α} (same : ∀ a, a ∈ s ↔ a ∈ t) : s = t := by
  have perm : s.elems.Perm t.elems :=
    (List.perm_ext_iff_of_nodup s.nodup_toList t.nodup_toList).mpr same
  have equal := perm.eq_of_pairwise
    (fun x y _ _ less less' => by simp [Std.OrientedCmp.gt_iff_lt.mpr less] at less')
    s.sorted t.sorted
  cases s
  cases t
  cases equal
  rfl

end Lawful

end SortedSet
end RepoAudit
