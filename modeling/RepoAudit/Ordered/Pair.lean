import RepoAudit.Ordered.Map

/-!
# Unordered pairs

A pair of texts of which the first is not greater than the second, so that the order in which the
two are named does not matter.
-/

namespace RepoAudit

structure UnorderedPair where
  first : String
  second : String
  ordered : (compare first second).isLE
deriving DecidableEq

namespace UnorderedPair

/-- The pair of two texts. -/
def of (x y : String) : UnorderedPair :=
  if h : (compare x y).isLE then ⟨x, y, h⟩
  else ⟨y, x, by
    have turned : compare y x = (compare x y).swap := Std.OrientedOrd.eq_swap
    cases same : compare x y <;> simp_all⟩

theorem of_cases (x y : String) : (of x y).first = x ∧ (of x y).second = y ∨
    (of x y).first = y ∧ (of x y).second = x := by
  unfold of
  split
  · exact .inl ⟨rfl, rfl⟩
  · exact .inr ⟨rfl, rfl⟩

theorem of_first_second (pair : UnorderedPair) : of pair.first pair.second = pair :=
  dif_pos pair.ordered

theorem of_comm (x y : String) : of x y = of y x := by
  have turned : compare y x = (compare x y).swap := Std.OrientedOrd.eq_swap
  cases order : compare x y with
  | eq => rw [Std.LawfulEqCmp.eq_of_compare order]
  | lt | gt => simp [of, turned, order]

theorem of_eq_of_iff {x y x' y' : String} :
    of x y = of x' y' ↔ x = x' ∧ y = y' ∨ x = y' ∧ y = x' := by
  constructor
  · intro same
    have cases := of_cases x y
    rw [same] at cases
    rcases cases with ⟨rfl, rfl⟩ | ⟨rfl, rfl⟩
    · exact of_cases x' y'
    · exact (of_cases x' y').symm.imp And.symm And.symm
  · rintro (⟨rfl, rfl⟩ | ⟨rfl, rfl⟩)
    · rfl
    · exact of_comm x y

theorem first_lt_second {x y : String} (different : x ≠ y) :
    (of x y).first < (of x y).second := by
  have ordered := (of x y).ordered
  cases order : compare (of x y).first (of x y).second with
  | lt => exact compareOfLessAndEq_eq_lt.mp order
  | eq =>
    have same := Std.LawfulEqCmp.eq_of_compare order
    rcases of_cases x y with ⟨first, second⟩ | ⟨first, second⟩
    · exact absurd (first.symm.trans (same.trans second)) different
    · exact absurd (second.symm.trans (same.symm.trans first)) different
  | gt => rw [order] at ordered; cases ordered

/-- Pairs are compared by the first text, then by the second. -/
instance : Ord UnorderedPair := ⟨compareLex (compareOn first) (compareOn second)⟩

instance : Std.TransOrd UnorderedPair :=
  inferInstanceAs (Std.TransCmp (compareLex (compareOn first) (compareOn second)))

instance : Std.LawfulEqOrd UnorderedPair where
  eq_of_compare {a b} h := by
    replace h : compareLex (compareOn first) (compareOn second) a b = .eq := h
    simp only [compareLex_eq_eq, compareOn] at h
    obtain ⟨same, same'⟩ := h
    have same := Std.LawfulEqCmp.eq_of_compare same
    have same' := Std.LawfulEqCmp.eq_of_compare same'
    cases a; cases b; simp_all

end UnorderedPair
end RepoAudit
