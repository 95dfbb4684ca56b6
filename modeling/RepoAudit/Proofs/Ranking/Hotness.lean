import RepoAudit.Proofs.Decimal.Bounds
import RepoAudit.Ranking.Hotness

/-!
# The range of hotness

A share in the greatest of several values is at most one, give or take the rounding, so that the
hotness of a file is a number, and is clamped to the unit interval.
-/

namespace RepoAudit.Ranking

open Project Decimal

/-! ### Shares -/

theorem foldl_greatest {bound : Int} {values : List Float} (bounded : ∀ x ∈ values, Bounded bound x)
    {best : Float} (first : Bounded bound best) :
    let found := values.foldl (fun best x => if best < x then x else best) best
    Bounded bound found ∧ rankOf best ≤ rankOf found ∧ ∀ x ∈ values, rankOf x ≤ rankOf found := by
  induction values generalizing best with
  | nil => exact ⟨first, le_rfl, by simp⟩
  | cons x rest ih =>
    obtain ⟨head, later⟩ := List.forall_mem_cons.mp bounded
    rw [List.foldl_cons]
    by_cases less : best < x
    · obtain ⟨found, above, others⟩ := ih later head
      rw [if_pos less]
      exact ⟨found, ((first.lt_iff head).mp less).le.trans above,
        List.forall_mem_cons.mpr ⟨above, others⟩⟩
    · obtain ⟨found, above, others⟩ := ih later first
      have below : rankOf x ≤ rankOf best := Nat.le_of_not_lt fun less' =>
        less ((first.lt_iff head).mpr less')
      rw [if_neg less]
      exact ⟨found, above, List.forall_mem_cons.mpr ⟨below.trans above, others⟩⟩

/-- A share is at most one, give or take the rounding. -/
theorem bounded_share {bound : Int} {values : List Float} (bounded : ∀ x ∈ values, Bounded bound x)
    {x : Float} (member : x ∈ values) : Bounded 1 (share x (greatest values)) := by
  obtain ⟨found, -, above⟩ := foldl_greatest bounded (bounded_zero bound)
  rw [share]
  split
  · rename_i positive
    refine (bounded x member).div found (above x member) ?_
    exact (Nat.zero_le _).trans_lt (((bounded_zero bound).lt_iff found).mp positive)
  · exact bounded_zero 1

/-! ### Hotness -/

/-- Files whose numbers are neither negative nor infinite. -/
def Measurable (f : File) : Prop :=
  f.churn < 2 ^ 64 ∧ f.loc < 2 ^ 64 ∧ Bounded 971 (File.complexityOrZero f)

theorem clampToUnit_mem {bound : Int} {x : Float} (bounded : Bounded bound x) :
    0.0 ≤ clampToUnit x ∧ clampToUnit x ≤ 1.0 := by
  have one : Bounded (-52) 1.0 := by decide +kernel
  rw [clampToUnit]
  split
  · decide +kernel
  split
  · decide +kernel
  · rename_i notBelow notAbove
    rw [(bounded_zero 0).le_iff bounded, bounded.le_iff one]
    refine ⟨?_, Nat.le_of_not_lt fun above => notAbove ((one.lt_iff bounded).mpr above)⟩
    exact Nat.le_of_not_lt fun below => notBelow ((bounded.lt_iff (bounded_zero 0)).mpr below)

/-- The hotness of a file is in the unit interval. -/
theorem hotness_mem {files : List File} (measurable : ∀ f ∈ files, Measurable f) {f : File}
    (member : f ∈ files) : 0.0 ≤ hotness files f ∧ hotness files f ≤ 1.0 := by
  have shared (value : File → Float) (bounded : ∀ f ∈ files, Bounded 971 (value f)) :
      Bounded 1 (share (value f) (greatest (files.map value))) :=
    bounded_share (List.forall_mem_map.mpr bounded) (List.mem_map_of_mem member)
  have churn := shared (fun f => .ofNat f.churn) fun f among =>
    (bounded_ofNat (measurable f among).1).mono (by decide)
  have size := shared (fun f => .ofNat f.loc) fun f among =>
    (bounded_ofNat (measurable f among).2.1).mono (by decide)
  have complexity := shared File.complexityOrZero fun f among => (measurable f among).2.2
  have sizeWeight : Bounded (-53) sizeWeight := by decide +kernel
  have complexityWeight : Bounded (-53) complexityWeight := by decide +kernel
  have first := sizeWeight.mul size (by decide) (by decide)
  have second := complexityWeight.mul complexity (by decide) (by decide)
  exact clampToUnit_mem (churn.mul (first.add second (by decide) (by decide)) (by decide)
    (by decide))

end RepoAudit.Ranking
