import RepoAudit.History.Effect
import RepoAudit.Proofs.Ordered.Gathering

/-!
# Who leads

The contributor with the most lines of a file, and whether these are enough to own it:
`leads_of_owner`.
-/

namespace RepoAudit.History

/-! ### The greatest entry -/

theorem greatest_concat (entries : List (String × Nat)) (e : String × Nat) :
    greatest (entries ++ [e]) = match greatest entries with
      | some b => if b.2 < e.2 then some e else some b
      | none => some e := by
  rw [greatest, List.foldl_concat]
  rfl

theorem exists_greatest {entries : List (String × Nat)} (filled : entries ≠ []) :
    ∃ best, greatest entries = some best := by
  obtain ⟨rest, e, rfl⟩ := entries.eq_nil_or_concat.resolve_left filled
  rw [List.concat_eq_append, greatest_concat]
  split
  · split <;> exact ⟨_, rfl⟩
  · exact ⟨_, rfl⟩

/-- The entries before the greatest one have less, and those after it have no more. -/
theorem exists_split_of_greatest {entries : List (String × Nat)} {best : String × Nat}
    (found : greatest entries = some best) : ∃ before after, entries = before ++ best :: after ∧
      (∀ e ∈ before, e.2 < best.2) ∧ ∀ e ∈ after, e.2 ≤ best.2 := by
  induction entries using List.reverseRecOn generalizing best with
  | nil => cases found
  | append_singleton rest e ih =>
    rw [greatest_concat] at found
    cases earlier : greatest rest with
    | none =>
      rw [earlier] at found
      obtain rfl := Option.some.inj found
      have empty : rest = [] := by
        by_contra filled
        obtain ⟨best, found⟩ := exists_greatest filled
        rw [found] at earlier
        cases earlier
      exact ⟨[], [], by rw [empty, List.nil_append], by simp, by simp⟩
    | some b =>
      obtain ⟨before, after, rfl, less, most⟩ := ih earlier
      rw [earlier] at found
      dsimp only at found
      split at found
      · rename_i greater
        obtain rfl := Option.some.inj found
        refine ⟨before ++ b :: after, [], rfl, fun x member => ?_, by simp⟩
        rcases List.mem_append.mp member with early | late
        · exact (less x early).trans greater
        · rcases List.mem_cons.mp late with rfl | late
          · exact greater
          · exact (most x late).trans_lt greater
      · rename_i greater
        obtain rfl := Option.some.inj found
        refine ⟨before, after ++ [e], by simp, less, fun x member => ?_⟩
        rcases List.mem_append.mp member with late | last
        · exact most x late
        · obtain rfl := List.mem_singleton.mp last
          exact Nat.le_of_not_lt greater

/-- The contributor with the most lines comes first among those who have as many. -/
theorem leads_of_greatest {shares : SortedMap String Nat} {person : String} {lines : Nat}
    (found : greatest shares.entries = some (person, lines)) : shares.get? person = some lines ∧
      ∀ other n, shares.get? other = some n → n < lines ∨ n = lines ∧ person ≤ other := by
  obtain ⟨before, after, split, less, most⟩ := exists_split_of_greatest found
  have among : (person, lines) ∈ shares.entries := by simp [split]
  have sorted := shares.sorted
  rw [split] at sorted
  have behind := (List.pairwise_cons.mp (List.pairwise_append.mp sorted).2.1).1
  refine ⟨(SortedMap.mem_entries _).mp among, fun other n share => ?_⟩
  have member := (SortedMap.mem_entries _).mpr share
  rw [split] at member
  rcases List.mem_append.mp member with early | late
  · exact .inl (less _ early)
  · rcases List.mem_cons.mp late with same | late
    · obtain ⟨rfl, rfl⟩ := Prod.mk.inj same
      exact .inr ⟨rfl, le_rfl⟩
    · rcases (most _ late).lt_or_eq with fewer | same
      · exact .inl fewer
      · exact .inr ⟨same, (compare_lt_iff_lt.mp (behind _ late)).le⟩

/-! ### Who owns a file -/

/-- Whether some lines are enough of all for a threshold. -/
def Enough (threshold : Float) (lines total : Nat) : Prop :=
  threshold ≤ Float.ofNat lines / Float.ofNat total

instance (threshold : Float) (lines total : Nat) : Decidable (Enough threshold lines total) :=
  inferInstanceAs (Decidable (_ ≤ _))

theorem owner?_eq (threshold : Float) (shares : SortedMap String Nat) :
    owner? threshold shares = if shares.values.sum = 0 then none else
      (greatest shares.entries).bind fun best =>
        if Enough threshold best.2 shares.values.sum then some best.1 else none :=
  rfl

/-- The owner has the most lines, the first of several contributors, and these are enough. -/
theorem leads_of_owner {threshold : Float} {shares : SortedMap String Nat} {person : String}
    (owner : owner? threshold shares = some person) : ∃ lines, shares.get? person = some lines ∧
      Enough threshold lines shares.values.sum ∧
      ∀ other n, shares.get? other = some n → n < lines ∨ n = lines ∧ person ≤ other := by
  rw [owner?_eq] at owner
  obtain ⟨-, owner⟩ := Option.ite_none_left_eq_some.mp owner
  obtain ⟨⟨who, lines⟩, found, chosen⟩ := Option.bind_eq_some_iff.mp owner
  obtain ⟨enough, same⟩ := Option.ite_none_right_eq_some.mp chosen
  obtain rfl := Option.some.inj same
  obtain ⟨share, leads⟩ := leads_of_greatest found
  exact ⟨lines, share, enough, leads⟩

end RepoAudit.History
