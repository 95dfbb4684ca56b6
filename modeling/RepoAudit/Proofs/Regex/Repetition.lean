import RepoAudit.Regex.Pattern

/-!
# Texts of repeated characters

A pattern that requires a number of characters of one set between the start and the end of a text
matches such a text: each character that is read leaves one repetition fewer to be described.
-/

namespace RepoAudit.Regex.Pattern

/-- The rest of a text, of a number of characters of a set. -/
def remaining (s : CharSet) (min max : Nat) : Pattern :=
  .seq (.times (.set s) min (some max)) (.seq (.assertion .textEnd) .empty)

/-- A whole text of a number of characters of a set. -/
def repeated (s : CharSet) (min max : Nat) : Pattern :=
  .seq (.assertion .textStart) (remaining s min max)

variable {s : CharSet} {min max : Nat}

theorem remaining_mem_steps {c : Char} (member : s.has c = true) (at' : Place) :
    remaining s (min - 1) max ∈ (remaining s min (max + 1)).steps at' c := by
  simp [remaining, steps, member, nullable, andThen]

theorem search_of_remaining {start : Pattern} {cs : List Char}
    (members : ∀ c ∈ cs, s.has c = true) (before : Option Char) (open' : List Pattern)
    (least : min ≤ cs.length) (most : cs.length ≤ max) (kept : remaining s min max ∈ open') :
    start.search before open' cs = true := by
  induction cs generalizing before open' min max with
  | nil =>
    obtain rfl : min = 0 := Nat.le_zero.mp least
    have ends : (remaining s 0 max).nullable ⟨before, none⟩ = true := by
      simp [remaining, nullable, Assertion.holds]
    exact List.any_eq_true.mpr ⟨_, List.mem_cons_of_mem start kept, ends⟩
  | cons c rest ih =>
    obtain ⟨member, later⟩ := List.forall_mem_cons.mp members
    rw [List.length_cons] at least most
    obtain ⟨max, rfl⟩ : ∃ n, max = n + 1 := ⟨max - 1, by omega⟩
    rw [search, Bool.or_eq_true]
    refine .inr (ih later (some c) _ (by omega : min - 1 ≤ rest.length)
      (Nat.le_of_succ_le_succ most) ?_)
    exact List.mem_eraseDups.mpr (List.mem_flatMap.mpr
      ⟨_, List.mem_cons_of_mem start kept, remaining_mem_steps member _⟩)

/-- A text of a number of characters of a set is matched by the pattern that requires it. -/
theorem isMatch_repeated {cs : List Char} (members : ∀ c ∈ cs, s.has c = true)
    (filled : cs ≠ []) (least : min ≤ cs.length) (most : cs.length ≤ max) :
    (repeated s min max).isMatch cs = true := by
  obtain ⟨c, rest, rfl⟩ := List.exists_cons_of_ne_nil filled
  obtain ⟨member, later⟩ := List.forall_mem_cons.mp members
  rw [List.length_cons] at least most
  obtain ⟨max, rfl⟩ : ∃ n, max = n + 1 := ⟨max - 1, by omega⟩
  rw [isMatch, search, Bool.or_eq_true]
  refine .inr (search_of_remaining later (some c) _ (by omega : min - 1 ≤ rest.length)
    (Nat.le_of_succ_le_succ most) ?_)
  refine List.mem_eraseDups.mpr (List.mem_flatMap.mpr ⟨_, .head _, ?_⟩)
  exact List.mem_append_right _ (remaining_mem_steps member _)

end RepoAudit.Regex.Pattern
