import Mathlib
import RepoAudit.Decimal.Reader

/-!
# Rounding

When a number is rounded to the format of floating-point numbers, its mantissa loses the digits that
do not fit. What is left may be one greater in its last digit, and is carried over once if it then
has a digit too many.
-/

namespace RepoAudit.Decimal

open Float.Model UnpackedFloat

theorem mantissa_shift (em : ExtendedMantissa) (n : Nat) :
    (em >>> n).mantissa = em.mantissa / 2 ^ n := by
  induction n with
  | zero => simp [HShiftRight.hShiftRight, Nat.repeat]
  | succ n ih =>
    change (em >>> n).mantissa / 2 = _
    rw [ih, Nat.div_div_eq_div_mul, Nat.pow_succ]

theorem le_roundedMantissa (em : ExtendedMantissa) : em.mantissa ≤ em.roundedMantissa ∧
    em.roundedMantissa ≤ em.mantissa + 1 := by
  obtain ⟨m, round, sticky⟩ := em
  cases round <;> cases sticky <;> simp [ExtendedMantissa.roundedMantissa,
    ExtendedMantissa.accuracy, Accuracy.roundToNearestEven]
  omega

/-- The exponent at which a mantissa has 53 digits, as far as this lets it grow. -/
def target (m : Nat) (e : Int) : Int := max e (max (m.log2 + e - 52) (-1074))

theorem shiftToTargetExponent_eq (m : Nat) (e : Int) (accuracy : Accuracy) :
    shiftToTargetExponent Format.binary64 m e accuracy =
      (ExtendedMantissa.ofMantissaAndAccuracy m accuracy >>> (target m e - e).toNat, target m e) := by
  have amount : (Format.binary64.targetExponent (totalExponent m e) - e).toNat =
      (target m e - e).toNat := by
    simp only [target, Format.targetExponent, totalExponent, Format.mantissaBits, Format.minExponent]
    norm_num
    omega
  have above : e ≤ target m e := le_max_left _ _
  simp only [shiftToTargetExponent, shiftToExponent, amount]
  exact Prod.ext rfl (by omega)

theorem mantissa_shiftToTargetExponent (m : Nat) (e : Int) (accuracy : Accuracy) :
    (shiftToTargetExponent Format.binary64 m e accuracy).1.mantissa =
      m / 2 ^ (target m e - e).toNat := by
  have mantissa : (ExtendedMantissa.ofMantissaAndAccuracy m accuracy).mantissa = m := by
    unfold ExtendedMantissa.ofMantissaAndAccuracy
    split <;> rfl
  rw [shiftToTargetExponent_eq, mantissa_shift, mantissa]

theorem shifted_lt (m : Nat) (e : Int) : m / 2 ^ (target m e - e).toNat < 2 ^ 53 := by
  have digits : m < 2 ^ (m.log2 + 1) := Nat.lt_log2_self
  have enough : m.log2 + 1 ≤ 53 + (target m e - e).toNat := by
    unfold target
    omega
  refine Nat.div_lt_of_lt_mul (digits.trans_le ?_)
  rw [← Nat.pow_add, Nat.add_comm _ 53]
  exact Nat.pow_le_pow_right (by decide) enough

theorem target_of_lt {m : Nat} {e : Int} (small : m < 2 ^ 53) (low : -1074 ≤ e) :
    target m e = e := by
  have digits : m.log2 ≤ 52 := by
    by_cases zero : m = 0
    · simp [zero]
    · have := (Nat.log2_lt zero).mpr small
      omega
  unfold target
  omega

theorem target_carry {e : Int} (low : -1074 ≤ e) : target (2 ^ 53) e = e + 1 := by
  rw [target, Nat.log2_two_pow]
  omega

/-- The mantissa that is left when the digits that do not fit are rounded. -/
def rounded (m : Nat) (e : Int) (accuracy : Accuracy) : Nat :=
  (shiftToTargetExponent Format.binary64 m e accuracy).1.roundedMantissa

theorem le_rounded (m : Nat) (e : Int) (accuracy : Accuracy) :
    m / 2 ^ (target m e - e).toNat ≤ rounded m e accuracy ∧
      rounded m e accuracy ≤ m / 2 ^ (target m e - e).toNat + 1 := by
  rw [← mantissa_shiftToTargetExponent m e accuracy]
  exact le_roundedMantissa _

theorem rounded_le (m : Nat) (e : Int) (accuracy : Accuracy) : rounded m e accuracy ≤ 2 ^ 53 :=
  (le_rounded m e accuracy).2.trans (shifted_lt m e)

/-- A number is rounded to a mantissa of 53 digits, which may be carried over once. -/
theorem roundWithAccuracy_eq (sign : Sign) (m : Nat) (e : Int) (accuracy : Accuracy) :
    roundWithAccuracy Format.binary64 sign m e accuracy =
      if zero : rounded m e accuracy = 0 then .zero sign
      else if rounded m e accuracy < 2 ^ 53 then
        .finite sign (rounded m e accuracy) (target m e) (Nat.pos_of_ne_zero zero)
      else .finite sign (2 ^ 52) (target m e + 1) (by decide) := by
  have most := rounded_le m e accuracy
  have low : -1074 ≤ target m e := by
    unfold target
    omega
  have first : (shiftToTargetExponent Format.binary64 m e accuracy).1.roundedMantissa =
      rounded m e accuracy := rfl
  have exponent (m : Nat) (e : Int) (accuracy : Accuracy) :
      (shiftToTargetExponent Format.binary64 m e accuracy).2 = target m e := by
    rw [shiftToTargetExponent_eq]
  have result : roundWithAccuracy Format.binary64 sign m e accuracy =
      if h : rounded m e accuracy / 2 ^ (target (rounded m e accuracy) (target m e) - target m e).toNat = 0
      then .zero sign
      else .finite sign _ (target (rounded m e accuracy) (target m e)) (Nat.pos_of_ne_zero h) := by
    simp only [roundWithAccuracy, first, exponent, mantissa_shiftToTargetExponent]
  rw [result]
  generalize rounded m e accuracy = r at most
  by_cases carry : r < 2 ^ 53
  · simp only [target_of_lt carry low, Int.sub_self, Int.toNat_zero, Nat.pow_zero, Nat.div_one,
      if_pos carry]
  · obtain rfl : r = 2 ^ 53 := by omega
    have one : (target m e + 1 - target m e).toNat = 1 := by omega
    simp only [target_carry low, one]
    rfl

theorem roundWithAccuracy_cases (sign : Sign) (m : Nat) (e : Int) (accuracy : Accuracy) :
    (∃ r positive, m / 2 ^ (target m e - e).toNat ≤ r ∧ r < 2 ^ 53 ∧
      roundWithAccuracy Format.binary64 sign m e accuracy = .finite sign r (target m e) positive) ∨
    (∃ positive, roundWithAccuracy Format.binary64 sign m e accuracy =
      .finite sign (2 ^ 52) (target m e + 1) positive) ∨
    m / 2 ^ (target m e - e).toNat = 0 ∧
      roundWithAccuracy Format.binary64 sign m e accuracy = .zero sign := by
  have above := (le_rounded m e accuracy).1
  rw [roundWithAccuracy_eq]
  split_ifs with zero small
  · exact .inr (.inr ⟨Nat.le_zero.mp (zero ▸ above), rfl⟩)
  · exact .inl ⟨_, Nat.pos_of_ne_zero zero, above, small, rfl⟩
  · exact .inr (.inl ⟨by decide, rfl⟩)

end RepoAudit.Decimal
