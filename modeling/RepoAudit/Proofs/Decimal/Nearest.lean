import RepoAudit.Proofs.Decimal.Bounds

/-!
# The nearest floating-point number

A mantissa that is cut off knows of the digits after it which side of a half they are on. That is
enough to round to the nearest number, and to round keeps the order of what is rounded.
-/

namespace RepoAudit.Decimal

open Float.Model UnpackedFloat

/-! ### What the digits of a mantissa tell of a number -/

/-- The number of halves in a mantissa with the first digit after it. -/
def halves (em : ExtendedMantissa) : Nat := 2 * em.mantissa + em.roundBit.toNat

/-- A mantissa, the digit after it, and whether more follow, are those of a number. -/
def Tells (em : ExtendedMantissa) (x : ℚ) : Prop :=
  if em.stickyBit then halves em < 2 * x ∧ 2 * x < halves em + 1 else 2 * x = halves em

section Tells

variable {em em' : ExtendedMantissa} {x x' : ℚ}

theorem Tells.halves_le (tells : Tells em x) : halves em ≤ 2 * x ∧ 2 * x < halves em + 1 := by
  unfold Tells at tells
  split at tells
  · exact ⟨tells.1.le, tells.2⟩
  · constructor <;> linarith

theorem Tells.mantissa_le (tells : Tells em x) : em.mantissa ≤ x ∧ x < em.mantissa + 1 := by
  obtain ⟨above, below⟩ := tells.halves_le
  have digit : (em.roundBit.toNat : ℚ) ≤ 1 := by exact_mod_cast Bool.toNat_le em.roundBit
  have least : (0 : ℚ) ≤ em.roundBit.toNat := by positivity
  simp only [halves, Nat.cast_add, Nat.cast_mul, Nat.cast_ofNat] at above below
  constructor <;> linarith

theorem Tells.shiftRightOne (tells : Tells em x) : Tells em.shiftRightOne (x / 2) := by
  obtain ⟨m, round, sticky⟩ := em
  have digits : halves (ExtendedMantissa.shiftRightOne ⟨m, round, sticky⟩) = m := by
    have parts := Nat.div_add_mod m 2
    simp only [halves, ExtendedMantissa.shiftRightOne]
    rcases Nat.mod_two_eq_zero_or_one m with even | odd
    · simp [even]
      omega
    · simp [odd]
      omega
  have twice : 2 * (x / 2) = x := by ring
  unfold Tells at tells ⊢
  rw [digits, twice]
  cases round <;> cases sticky <;>
    simp [halves, ExtendedMantissa.shiftRightOne] at tells ⊢ <;>
    first | linarith | constructor <;> linarith

theorem Tells.shiftRight (tells : Tells em x) (n : Nat) : Tells (em >>> n) (x / 2 ^ n) := by
  induction n with
  | zero => rwa [pow_zero, div_one]
  | succ n ih =>
    rw [pow_succ, ← div_div]
    exact ih.shiftRightOne

/-- To round a mantissa keeps the order. -/
theorem Tells.rounded_le (tells : Tells em x) (tells' : Tells em' x') (le : x ≤ x') :
    em.roundedMantissa ≤ em'.roundedMantissa := by
  have digits : halves em ≤ halves em' := by
    have less : (halves em : ℚ) < halves em' + 1 := by
      linarith [tells.halves_le.1, tells'.halves_le.2]
    exact Nat.le_of_lt_succ (by exact_mod_cast less)
  have bounds := le_roundedMantissa em
  have bounds' := le_roundedMantissa em'
  obtain ⟨m, round, sticky⟩ := em
  obtain ⟨m', round', sticky'⟩ := em'
  simp only [halves] at digits
  by_cases less : m < m'
  · exact bounds.2.trans (less.trans_le bounds'.1)
  · have digit := Bool.toNat_le round'
    obtain rfl : m = m' := by omega
    unfold Tells at tells tells'
    cases round <;> cases sticky <;> cases round' <;> cases sticky' <;>
      simp [halves, ExtendedMantissa.roundedMantissa, ExtendedMantissa.accuracy,
        Accuracy.roundToNearestEven] at tells tells' digits ⊢ <;>
      first | omega | linarith

end Tells

/-! ### Rounded numbers -/

/-- A mantissa with an exponent, and what is known of the digits that follow, are those of a
number. -/
def Describes (m : Nat) (e : Int) (accuracy : Accuracy) (x : ℚ) : Prop :=
  Tells (.ofMantissaAndAccuracy m accuracy) (x / 2 ^ e)

theorem describes_exact (m : Nat) (e : Int) : Describes m e .exact (m * 2 ^ e) := by
  have nonzero : (2 : ℚ) ^ e ≠ 0 := by positivity
  rw [Describes, mul_div_cancel_right₀ _ nonzero]
  simp [Tells, halves, ExtendedMantissa.ofMantissaAndAccuracy]

/-- The digits of a quotient, and what its remainder tells of those that follow. -/
theorem describes_div {m d : Nat} (positive : 0 < d) (e : Int) :
    Describes (m / d) e (accuracyOfFraction (m % d) d) (m / d * 2 ^ e) := by
  have nonzero : (2 : ℚ) ^ e ≠ 0 := by positivity
  have least : (0 : ℚ) < d := by exact_mod_cast positive
  have twice : 2 * (m / d : ℚ) = 2 * (m / d : Nat) + 2 * (m % d : Nat) / d := by
    have whole : (m : ℚ) = d * (m / d : Nat) + (m % d : Nat) := by
      exact_mod_cast (Nat.div_add_mod m d).symm
    field_simp
    linarith
  have below := Nat.mod_lt m positive
  generalize m % d = r at twice below
  have part : (2 * r / d : ℚ) < 2 := by
    rw [div_lt_iff₀ least]
    exact_mod_cast Nat.mul_lt_mul_of_pos_left below (by decide)
  rw [Describes, mul_div_cancel_right₀ _ nonzero, accuracyOfFraction]
  by_cases zero : r = 0
  · simp [zero, Tells, halves, ExtendedMantissa.ofMantissaAndAccuracy] at twice ⊢
    exact twice
  have more : (0 : ℚ) < 2 * r / d := by
    have : 0 < r := Nat.pos_of_ne_zero zero
    positivity
  rw [if_neg zero]
  rcases lt_trichotomy (2 * r) d with less | same | greater
  · have half : (2 * r / d : ℚ) < 1 := by
      rw [div_lt_one least]
      exact_mod_cast less
    simp [Nat.compare_eq_lt.mpr less, Tells, halves, ExtendedMantissa.ofMantissaAndAccuracy]
    constructor <;> linarith
  · have half : (2 * r / d : ℚ) = 1 := by
      rw [div_eq_one_iff_eq least.ne']
      exact_mod_cast same
    simp [Nat.compare_eq_eq.mpr same, Tells, halves, ExtendedMantissa.ofMantissaAndAccuracy]
    linarith
  · have half : (1 : ℚ) < 2 * r / d := by
      rw [one_lt_div least]
      exact_mod_cast greater
    simp [Nat.compare_eq_gt.mpr greater, Tells, halves, ExtendedMantissa.ofMantissaAndAccuracy]
    constructor <;> linarith

/-- Digits of a number that fill the mantissa, at an exponent that is neither too small nor too
large for it. -/
structure Digits (m : Nat) (e : Int) (accuracy : Accuracy) (x : ℚ) : Prop where
  described : Describes m e accuracy x
  full : 2 ^ 52 ≤ m
  low : -1022 ≤ m.log2 + e
  high : m.log2 + e ≤ 1022

section Digits

variable {m m' : Nat} {e e' : Int} {accuracy accuracy' : Accuracy} {x x' : ℚ}

theorem Digits.target (digits : Digits m e accuracy x) : target m e = m.log2 + e - 52 := by
  have more : 52 ≤ m.log2 := (Nat.le_log2 (by have := digits.full; omega)).mpr digits.full
  have low := digits.low
  unfold Decimal.target
  omega

theorem Digits.tells (digits : Digits m e accuracy x) :
    Tells (shiftToTargetExponent Format.binary64 m e accuracy).1 (x / 2 ^ Decimal.target m e) := by
  have above : e ≤ Decimal.target m e := le_max_left _ _
  have scale : (2 : ℚ) ^ Decimal.target m e = 2 ^ e * 2 ^ (Decimal.target m e - e).toNat := by
    rw [← zpow_natCast, ← zpow_add₀ two_ne_zero]
    congr 1
    omega
  rw [shiftToTargetExponent_eq, scale, ← div_div]
  exact digits.described.shiftRight _

theorem Digits.le_shifted (digits : Digits m e accuracy x) :
    2 ^ 52 ≤ m / 2 ^ (Decimal.target m e - e).toNat := by
  have nonzero : m ≠ 0 := by
    have := digits.full
    omega
  rw [digits.target, Nat.le_div_iff_mul_le (Nat.two_pow_pos _), ← Nat.pow_add]
  refine (Nat.pow_le_pow_right (by decide) ?_).trans (Nat.log2_self_le nonzero)
  have := (Nat.le_log2 nonzero).mpr digits.full
  omega

theorem Digits.scaled (digits : Digits m e accuracy x) :
    2 ^ (Decimal.target m e + 52) ≤ x ∧ x < 2 ^ (Decimal.target m e + 53) := by
  have positive : (0 : ℚ) < 2 ^ Decimal.target m e := by positivity
  obtain ⟨above, below⟩ := digits.tells.mantissa_le
  rw [mantissa_shiftToTargetExponent] at above below
  have least : (2 : ℚ) ^ 52 ≤ (m / 2 ^ (Decimal.target m e - e).toNat : Nat) := by
    exact_mod_cast digits.le_shifted
  have most : ((m / 2 ^ (Decimal.target m e - e).toNat : Nat) : ℚ) + 1 ≤ 2 ^ 53 := by
    exact_mod_cast shifted_lt m e
  rw [zpow_add₀ two_ne_zero, zpow_add₀ two_ne_zero]
  constructor
  · have := (le_div_iff₀ positive).mp (least.trans above)
    rw [mul_comm]
    exact_mod_cast this
  · have := (div_lt_iff₀ positive).mp (below.trans_le most)
    rw [mul_comm]
    exact_mod_cast this

theorem Digits.rank_eq (digits : Digits m e accuracy x) :
    rank (roundWithAccuracy Format.binary64 .positive m e accuracy) =
      if rounded m e accuracy < 2 ^ 53 then (Decimal.target m e + 1075).toNat * 2 ^ 53 + rounded m e accuracy
      else (Decimal.target m e + 1 + 1075).toNat * 2 ^ 53 + 2 ^ 52 := by
  have least := digits.le_shifted.trans (le_rounded m e accuracy).1
  rw [roundWithAccuracy_eq, dif_neg (by omega)]
  split_ifs <;> rfl

/-- To round keeps the order. -/
theorem Digits.rank_le (digits : Digits m e accuracy x) (digits' : Digits m' e' accuracy' x')
    (le : x ≤ x') : rank (roundWithAccuracy Format.binary64 .positive m e accuracy) ≤
      rank (roundWithAccuracy Format.binary64 .positive m' e' accuracy') := by
  have least' := digits'.le_shifted.trans (le_rounded m' e' accuracy').1
  have most := rounded_le m e accuracy
  have low : -1074 ≤ Decimal.target m e := by
    rw [digits.target]
    linarith [digits.low]
  have exponents : Decimal.target m e ≤ Decimal.target m' e' := by
    have scales := digits.scaled.1.trans_lt (le.trans_lt digits'.scaled.2)
    have := (zpow_lt_zpow_iff_right₀ one_lt_two).mp scales
    omega
  have mantissas : Decimal.target m e = Decimal.target m' e' → rounded m e accuracy ≤ rounded m' e' accuracy' := by
    intro same
    refine digits.tells.rounded_le digits'.tells ?_
    rw [same]
    exact div_le_div_of_nonneg_right le (by positivity)
  rw [digits.rank_eq, digits'.rank_eq]
  split_ifs <;> omega

end Digits

/-- A floating-point number is another number, rounded. -/
def Rounds (u : UnpackedFloat) (x : ℚ) : Prop :=
  ∃ m e accuracy, Digits m e accuracy x ∧
    u = roundWithAccuracy Format.binary64 .positive m e accuracy

theorem Rounds.rank_le {u v : UnpackedFloat} {x y : ℚ} (rounds : Rounds u x) (rounds' : Rounds v y)
    (le : x ≤ y) : rank u ≤ rank v := by
  obtain ⟨_, _, _, digits, rfl⟩ := rounds
  obtain ⟨_, _, _, digits', rfl⟩ := rounds'
  exact digits.rank_le digits' le

/-- What is rounded can be stored. -/
theorem Rounds.unpack_pack {u : UnpackedFloat} {x : ℚ} (rounds : Rounds u x) :
    UnpackedFloat.unpack Format.binary64 (UnpackedFloat.pack Format.binary64 u) = u := by
  obtain ⟨m, e, accuracy, digits, rfl⟩ := rounds
  have least := digits.le_shifted.trans (le_rounded m e accuracy).1
  have exponent := digits.target
  have low := digits.low
  have high := digits.high
  rw [roundWithAccuracy_eq, dif_neg (by omega)]
  split_ifs with small
  · exact unpack_pack_of_full least small (by omega) (by omega)
  · exact unpack_pack_of_full le_rfl (by decide) (by omega) (by omega)

/-- Digits that fit are kept. -/
theorem roundWithAccuracy_of_lt {m : Nat} {e : Int} (full : 2 ^ 52 ≤ m) (small : m < 2 ^ 53)
    (low : -1074 ≤ e) : roundWithAccuracy Format.binary64 .positive m e .exact =
      .finite .positive m e (by omega) := by
  have exponent := target_of_lt small low
  have kept : rounded m e .exact = m := by
    rw [rounded, shiftToTargetExponent_eq, exponent, Int.sub_self]
    rfl
  rw [roundWithAccuracy_eq]
  simp only [kept, exponent, if_pos small]
  exact dif_neg (by omega)

end RepoAudit.Decimal
