import RepoAudit.Proofs.Decimal.Nearest

/-!
# Shares

Counts are read as floating-point numbers and divided by their total. The results are ordered like the
counts: `monotoneShares_of_lt`.
-/

namespace RepoAudit.Decimal

open Float.Model UnpackedFloat

/-! ### The order of all numbers -/

/-- The place of a number among all numbers; what is not a number has none. -/
def place? : UnpackedFloat → Option Int
  | .notANumber => none
  | .infinity sign => some (sign.apply (2 ^ 64))
  | .zero _ => some 0
  | u@(.finite sign _ _ _) => some (sign.apply (rank u))

/-- A number with as many digits as can be stored. -/
def Stored : UnpackedFloat → Prop
  | .finite _ m e _ => m < 2 ^ 53 ∧ -1074 ≤ e ∧ e ≤ 971
  | _ => True

theorem stored_unpack (f : Float.Model) : Stored f.unpack := by
  cases unpacked : f.unpack with
  | finite => exact exponent_unpack unpacked
  | _ => trivial

theorem rank_finite {m : Nat} {e : Int} {positive : 0 < m} {sign : Sign}
    (stored : Stored (.finite sign m e positive)) :
    0 < rank (.finite sign m e positive) ∧ rank (.finite sign m e positive) < 2 ^ 64 := by
  obtain ⟨small, low, high⟩ := stored
  simp only [rank]
  omega

theorem compare_digits {m m' : Nat} {e e' : Int} {positive : 0 < m} {positive' : 0 < m'}
    {sign sign' : Sign} (stored : Stored (.finite sign m e positive))
    (stored' : Stored (.finite sign' m' e' positive')) :
    (Ord.compare e e').then (Ord.compare m m') =
      Ord.compare (rank (.finite sign m e positive)) (rank (.finite sign' m' e' positive')) := by
  have first : Within 971 (.finite .positive m e positive) := stored
  have second : Within 971 (.finite .positive m' e' positive') := stored'
  exact Option.some.inj (first.compare second)

theorem le_finite_iff {m m' n n' : Nat} {e e' : Int} {positive : 0 < m} {positive' : 0 < m'}
    {sign sign' : Sign} (digits : (Ord.compare e e').then (Ord.compare m m') = Ord.compare n n')
    (first : 0 < n) (second : 0 < n') :
    (UnpackedFloat.compare (.finite sign m e positive)
      (.finite sign' m' e' positive')).any (·.isLE) = true ↔ sign.apply n ≤ sign'.apply n' := by
  cases sign <;> cases sign'
  case negative.negative =>
    change Option.any (·.isLE) (some ((Ord.compare e e').then (Ord.compare m m')).swap) = true ↔ _
    rw [digits]
    simp [Sign.apply, Nat.isGE_compare]
  case positive.positive =>
    change Option.any (·.isLE) (some ((Ord.compare e e').then (Ord.compare m m'))) = true ↔ _
    rw [digits]
    simp [Sign.apply, Nat.isLE_compare]
  all_goals simp [UnpackedFloat.compare, Sign.apply]
  all_goals omega

theorem exists_some_le (i j : Int) : (∃ i' ∈ some i, ∃ j' ∈ some j, i' ≤ j') ↔ i ≤ j := by
  simp

theorem le_iff_place? {u v : UnpackedFloat} (stored : Stored u) (stored' : Stored v) :
    (UnpackedFloat.compare u v).any (·.isLE) = true ↔
      ∃ i ∈ place? u, ∃ j ∈ place? v, i ≤ j := by
  cases u with
  | notANumber => simp [UnpackedFloat.compare, place?]
  | infinity sign =>
    cases v with
    | notANumber => cases sign <;> simp [UnpackedFloat.compare, place?]
    | infinity sign' =>
      cases sign <;> cases sign' <;> simp [UnpackedFloat.compare, place?, Sign.apply, Ord.compare]
    | zero sign' => cases sign <;> simp [UnpackedFloat.compare, place?, Sign.apply]
    | finite sign' m' e' positive' =>
      have inside := rank_finite stored'
      cases sign <;> cases sign' <;> simp [UnpackedFloat.compare, place?, Sign.apply] <;> omega
  | zero sign =>
    cases v with
    | infinity sign' => cases sign' <;> simp [UnpackedFloat.compare, place?, Sign.apply]
    | finite sign' m' e' positive' =>
      have inside := rank_finite stored'
      cases sign' <;> simp [UnpackedFloat.compare, place?, Sign.apply]; omega
    | _ => simp [UnpackedFloat.compare, place?]
  | finite sign m e positive =>
    have inside := rank_finite stored
    cases v with
    | notANumber => cases sign <;> simp [UnpackedFloat.compare, place?]
    | infinity sign' =>
      cases sign <;> cases sign' <;> simp [UnpackedFloat.compare, place?, Sign.apply] <;> omega
    | zero sign' => cases sign <;> simp [UnpackedFloat.compare, place?, Sign.apply]; omega
    | finite sign' m' e' positive' =>
      exact (le_finite_iff (compare_digits stored stored') inside.1 (rank_finite stored').1).trans
        (exists_some_le _ _).symm

/-- Where the order holds of two numbers and of the second and a third one, it holds of the first
and the third. -/
theorem le_trans {x y z : Float} (first : x ≤ y) (second : y ≤ z) : x ≤ z := by
  rw [le_iff_compare, le_iff_place? (stored_unpack _) (stored_unpack _)] at *
  obtain ⟨i, placed, j, placed', le⟩ := first
  obtain ⟨j', placed'', k, last, le'⟩ := second
  obtain rfl := Option.mem_unique placed' placed''
  exact ⟨i, placed, k, last, le.trans le'⟩

/-! ### Counts -/

theorem ofNat_of_lt {n : Nat} (positive : 0 < n) (small : n < 2 ^ 53) :
    ∃ m e, ∃ positive : 0 < m, UnpackedFloat.ofNat Format.binary64 n = .finite .positive m e positive ∧
      2 ^ 52 ≤ m ∧ m < 2 ^ 53 ∧ -52 ≤ e ∧ e ≤ 0 ∧ (m * 2 ^ e : ℚ) = n := by
  have full := le_shiftLeft positive
  have digits := log2_shiftLeft positive (52 - n.log2)
  have few := (Nat.log2_lt positive.ne').mpr small
  have fits : n <<< (52 - n.log2) < 2 ^ 53 :=
    (Nat.log2_lt (by omega)).mp (by omega)
  have same : ((n <<< (52 - n.log2) : Nat) * 2 ^ (0 - (52 - n.log2 : Nat) : Int) : ℚ) = n := by
    rw [Nat.shiftLeft_eq, zero_sub, zpow_neg, zpow_natCast]
    push_cast
    field_simp
  refine ⟨_, _, by omega, ?_, full, fits, ?_, ?_, same⟩
  · rw [ofNat_eq positive, round_eq n (by omega)]
    exact roundWithAccuracy_of_lt full fits (by omega)
  · omega
  · omega

/-- A count is read as the nearest floating-point number. -/
theorem rounds_ofScientific {n : Nat} (positive : 0 < n) (small : n < 2 ^ 64) :
    Rounds (Float.ofScientific n false 0).toModel.unpack n := by
  by_cases fast : n < 2 ^ 53
  · obtain ⟨m, e, positive, number, full, fits, low, high, same⟩ := ofNat_of_lt positive fast
    have digits := log2_shiftLeft positive 52
    have more : 52 ≤ m.log2 := (Nat.le_log2 positive.ne').mpr full
    have less : m.log2 < 53 := (Nat.log2_lt positive.ne').mpr fits
    rw [Nat.shiftLeft_eq] at digits
    rw [unpack_ofScientific_of_lt fast, number,
      unpack_pack_of_full full fits (by omega) (by omega)]
    have described := describes_exact (m * 2 ^ 52) (e + -52)
    have rounds : Rounds (UnpackedFloat.mul Format.binary64 (.finite .positive m e positive)
        (.finite .positive (2 ^ 52) (-52) (by decide))) n := by
      refine ⟨m * 2 ^ 52, e + -52, .exact, ⟨?_, by omega, by omega, by omega⟩, rfl⟩
      have product : ((m * 2 ^ 52 : Nat) * 2 ^ (e + -52) : ℚ) = n := by
        rw [zpow_add₀ two_ne_zero, ← same]
        push_cast
        norm_num
        ring
      exact product ▸ described
    rwa [rounds.unpack_pack]
  · have digits := log2_shiftLeft positive 53
    have less := (Nat.log2_lt positive.ne').mpr small
    have described := describes_exact (n <<< 53) (-53)
    have same : ((n <<< 53 : Nat) * 2 ^ (-53 : Int) : ℚ) = n := by
      rw [Nat.shiftLeft_eq, zpow_neg]
      push_cast
      exact mul_inv_cancel_right₀ (by positivity) _
    rw [same] at described
    have full : 2 ^ 52 ≤ n <<< 53 := by
      rw [Nat.shiftLeft_eq]
      omega
    rw [unpack_ofScientific_of_le (Nat.le_of_not_lt fast)]
    generalize n <<< 53 = m at digits described full
    have rounds : Rounds (roundWithAccuracy Format.binary64 .positive m (-53) .exact) n :=
      ⟨m, -53, .exact, ⟨described, full, by omega, by omega⟩, rfl⟩
    rwa [rounds.unpack_pack]

theorem rankOf_ofNat_le {a b : Nat} (le : a ≤ b) (small : b < 2 ^ 64) :
    rankOf (Float.ofNat a) ≤ rankOf (Float.ofNat b) := by
  rcases Nat.eq_zero_or_pos a with rfl | positive
  · exact Nat.zero_le _
  · exact (rounds_ofScientific positive (le.trans_lt small)).rank_le
      (rounds_ofScientific (positive.trans_le le) small) (by exact_mod_cast le)

/-- The number that a floating-point number of the format is. -/
def value : UnpackedFloat → ℚ
  | .finite _ m e _ => m * 2 ^ e
  | _ => 0

theorem Whole.cases {bound : Int} {u : UnpackedFloat} (whole : Whole bound u) :
    ∃ m e positive, u = .finite .positive m e positive ∧ 2 ^ 52 ≤ m ∧ m < 2 ^ 53 ∧ -52 ≤ e ∧
      e ≤ bound := by
  unfold Whole at whole
  split at whole
  · exact ⟨_, _, _, rfl, whole⟩
  · exact whole.elim

theorem value_le_value {bound bound' : Int} {u v : UnpackedFloat} (whole : Whole bound u)
    (whole' : Whole bound' v) (le : rank u ≤ rank v) : value u ≤ value v := by
  obtain ⟨m, e, positive, rfl, full, small, low, -⟩ := whole.cases
  obtain ⟨m', e', positive', rfl, full', small', low', -⟩ := whole'.cases
  simp only [rank] at le
  have exponents : e ≤ e' := by omega
  have scale : (2 : ℚ) ^ e' = 2 ^ e * 2 ^ (e' - e).toNat := by
    rw [← zpow_natCast, ← zpow_add₀ two_ne_zero]
    congr 1
    omega
  have mantissas : m ≤ m' * 2 ^ (e' - e).toNat := by
    rcases exponents.eq_or_lt with rfl | less
    · simp
      omega
    · have twice : 2 ≤ 2 ^ (e' - e).toNat := by
        refine Nat.le_self_pow (by omega) 2
      nlinarith
  have positive : (0 : ℚ) < 2 ^ e := by positivity
  rw [value, value, scale]
  have cast : (m : ℚ) ≤ m' * 2 ^ (e' - e).toNat := by exact_mod_cast mantissas
  nlinarith

theorem divCore_eq {m m' : Nat} (digits : m.log2 = 52) (digits' : m'.log2 = 52) {e e' : Int}
    (low : -1021 ≤ e - e') : divCore Format.binary64 m e m' e' =
      (m <<< 53 / m', e - e' - 53, accuracyOfFraction (m <<< 53 % m') m') := by
  have exponent : min (e - e') (Format.binary64.targetExponent
      (totalExponent m e - totalExponent m' e')) = e - e' - 53 := by
    simp only [Format.targetExponent, totalExponent, Format.mantissaBits, Format.minExponent,
      digits, digits']
    norm_num
    omega
  have amount : (e - e' - (e - e' - 53)).toNat = 53 := by omega
  simp only [divCore, exponent, amount]

/-- A quotient of numbers that are not below one is the nearest floating-point number. -/
theorem rounds_div {u v : UnpackedFloat} (whole : Whole 12 u) (whole' : Whole 12 v) :
    Rounds (UnpackedFloat.div Format.binary64 u v) (value u / value v) := by
  obtain ⟨m, e, positive, rfl, full, small, low, high⟩ := whole.cases
  obtain ⟨m', e', positive', rfl, full', small', low', high'⟩ := whole'.cases
  have log2 {m : Nat} (full : 2 ^ 52 ≤ m) (small : m < 2 ^ 53) : m.log2 = 52 := by
    have := (Nat.le_log2 (by omega)).mpr full
    have := (Nat.log2_lt (by omega : m ≠ 0)).mpr small
    omega
  have apart : -1021 ≤ e - e' := by omega
  have core := divCore_eq (log2 full small) (log2 full' small') apart
  have shifted := Nat.shiftLeft_eq m 53
  generalize m <<< 53 = n at core shifted
  have quotient : UnpackedFloat.div Format.binary64 (.finite .positive m e positive)
      (.finite .positive m' e' positive') = roundWithAccuracy Format.binary64 .positive (n / m')
        (e - e' - 53) (accuracyOfFraction (n % m') m') := by
    simp only [UnpackedFloat.div, core]
    rfl
  have same : (n / m' * 2 ^ (e - e' - 53) : ℚ) = m * 2 ^ e / (m' * 2 ^ e') := by
    rw [shifted, zpow_sub₀ two_ne_zero, zpow_sub₀ two_ne_zero]
    push_cast
    field_simp
  have least : 2 ^ 52 ≤ n / m' := by
    rw [Nat.le_div_iff_mul_le positive']
    omega
  have most : n / m' < 2 ^ 54 := by
    rw [Nat.div_lt_iff_lt_mul positive']
    omega
  have lower := (Nat.le_log2 (by omega)).mpr least
  have upper := (Nat.log2_lt (by omega)).mpr most
  have described := describes_div (m := n) positive' (e - e' - 53)
  rw [same] at described
  exact ⟨_, _, _, ⟨described, least, by omega, by omega⟩, quotient⟩

/-! ### Shares -/

/-- Shares in a total are ordered like the counts that they are of. -/
def MonotoneShares (total : Nat) : Prop :=
  ∀ a b, a ≤ b → b ≤ total →
    Float.ofNat a / Float.ofNat total ≤ Float.ofNat b / Float.ofNat total

section Shares

variable {n total : Nat}

theorem rounds_share (positive : 0 < n) (le : n ≤ total) (small : total < 2 ^ 64) :
    Rounds (Float.ofNat n / Float.ofNat total).toModel.unpack
      (value (Float.ofNat n).toModel.unpack / value (Float.ofNat total).toModel.unpack) := by
  have quotient : Rounds (UnpackedFloat.div Format.binary64 (Float.ofNat n).toModel.unpack
      (Float.ofNat total).toModel.unpack) _ :=
    rounds_div (whole_ofScientific positive (le.trans_lt small))
      (whole_ofScientific (positive.trans_le le) small)
  change Rounds (UnpackedFloat.unpack _ (UnpackedFloat.pack _ _)) _
  rwa [quotient.unpack_pack]

theorem bounded_share (positive : 0 < total) (le : n ≤ total) (small : total < 2 ^ 64) :
    Bounded 1 (Float.ofNat n / Float.ofNat total) := by
  have one := (whole_ofScientific positive small).one_le
  exact (bounded_ofNat (le.trans_lt small)).div (bounded_ofNat small) (rankOf_ofNat_le le small)
    (one.trans_lt' (by decide))

theorem rankOf_zero_share (positive : 0 < total) (small : total < 2 ^ 64) :
    rankOf (Float.ofNat 0 / Float.ofNat total) = 0 := by
  obtain ⟨m, e, positive, same, -⟩ := (whole_ofScientific positive small).cases
  have quotient : (Float.ofNat 0 / Float.ofNat total).toModel.unpack =
      UnpackedFloat.unpack Format.binary64 (UnpackedFloat.pack Format.binary64
        (UnpackedFloat.div Format.binary64 (.zero .positive) (Float.ofNat total).toModel.unpack)) :=
    rfl
  have zero : UnpackedFloat.div Format.binary64 (.zero .positive)
      (Float.ofNat total).toModel.unpack = .zero .positive := by
    rw [show (Float.ofNat total).toModel.unpack = _ from same]
    rfl
  rw [rankOf, quotient, zero, unpack_pack_zero]
  rfl

theorem value_nonneg (u : UnpackedFloat) : 0 ≤ value u := by
  unfold value
  split <;> positivity

/-- Shares are ordered like counts wherever the total fits into 64 bits. -/
theorem monotoneShares_of_lt (positive : 0 < total) (small : total < 2 ^ 64) :
    MonotoneShares total := by
  intro a b le most
  rw [(bounded_share positive (le.trans most) small).le_iff (bounded_share positive most small)]
  rcases Nat.eq_zero_or_pos a with rfl | some
  · rw [rankOf_zero_share positive small]
    exact Nat.zero_le _
  · have some' := some.trans_le le
    have order : value (Float.ofNat a).toModel.unpack ≤ value (Float.ofNat b).toModel.unpack :=
      value_le_value (whole_ofScientific some ((le.trans most).trans_lt small))
        (whole_ofScientific some' (most.trans_lt small)) (rankOf_ofNat_le le (most.trans_lt small))
    exact (rounds_share some (le.trans most) small).rank_le (rounds_share some' most small)
      (div_le_div_of_nonneg_right order (value_nonneg _))

end Shares

end RepoAudit.Decimal
