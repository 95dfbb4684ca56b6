import RepoAudit.Proofs.Decimal.Rounding

/-!
# Bounds of floating-point numbers

Sums, products and quotients of numbers that are neither negative nor infinite are of the same kind,
as long as their exponents are small. Such numbers are ordered like natural numbers.
-/

namespace RepoAudit.Decimal

open Float.Model UnpackedFloat

/-! ### Numbers that are neither negative nor infinite -/

/-- A number that is neither negative nor infinite, with an exponent up to a bound. -/
def Within (bound : Int) : UnpackedFloat → Prop
  | .zero _ => True
  | .finite .positive m e _ => m < 2 ^ 53 ∧ -1074 ≤ e ∧ e ≤ bound
  | _ => False

instance (bound : Int) : (u : UnpackedFloat) → Decidable (Within bound u)
  | .zero _ => .isTrue trivial
  | .finite .positive m e _ => inferInstanceAs (Decidable (m < 2 ^ 53 ∧ -1074 ≤ e ∧ e ≤ bound))
  | .finite .negative _ _ _ => .isFalse id
  | .infinity _ => .isFalse id
  | .notANumber => .isFalse id

/-- A number of which all digits of the mantissa are used, and that is not below one. -/
def Whole (bound : Int) : UnpackedFloat → Prop
  | .finite .positive m e _ => 2 ^ 52 ≤ m ∧ m < 2 ^ 53 ∧ -52 ≤ e ∧ e ≤ bound
  | _ => False

theorem Whole.within {bound : Int} {u : UnpackedFloat} (whole : Whole bound u) : Within bound u := by
  unfold Whole at whole
  split at whole
  · exact ⟨whole.2.1, by omega, whole.2.2.2⟩
  · exact whole.elim

theorem Within.mono {bound bound' : Int} {u : UnpackedFloat} (within : Within bound u)
    (le : bound ≤ bound') : Within bound' u := by
  unfold Within at within ⊢
  split at within
  · trivial
  · exact ⟨within.1, within.2.1, within.2.2.trans le⟩
  · exact within.elim

theorem Within.cases {bound : Int} {u : UnpackedFloat} (within : Within bound u) :
    (∃ sign, u = .zero sign) ∨ ∃ m e positive, u = .finite .positive m e positive ∧
      m < 2 ^ 53 ∧ -1074 ≤ e ∧ e ≤ bound := by
  unfold Within at within
  split at within
  · exact .inl ⟨_, rfl⟩
  · exact .inr ⟨_, _, _, rfl, within⟩
  · exact within.elim

theorem within_roundWithAccuracy {m n : Nat} {e bound : Int} (bits : m < 2 ^ n)
    (room : e + n ≤ bound + 52) (high : e < bound) (low : -1074 < bound) (accuracy : Accuracy) :
    Within bound (roundWithAccuracy Format.binary64 .positive m e accuracy) := by
  have digits : (m.log2 : Int) + 1 ≤ n ∨ m = 0 := by
    by_cases zero : m = 0
    · exact .inr zero
    · have := (Nat.log2_lt zero).mpr bits
      omega
  have target : target m e < bound := by
    rcases digits with digits | rfl
    · unfold target
      omega
    · simp only [target, Nat.log2_zero]
      omega
  have least : -1074 ≤ Decimal.target m e := by
    unfold Decimal.target
    omega
  rcases roundWithAccuracy_cases .positive m e accuracy with
    ⟨r, positive, -, small, rounded⟩ | ⟨positive, rounded⟩ | ⟨-, rounded⟩
  · rw [rounded]
    exact ⟨small, least, target.le⟩
  · rw [rounded]
    exact ⟨by decide, by omega, by omega⟩
  · rw [rounded]
    trivial

/-- A number with enough digits keeps them when it is rounded. -/
theorem whole_roundWithAccuracy {m n : Nat} {e bound : Int} (least : 2 ^ 52 ≤ m) (bits : m < 2 ^ n)
    (room : e + n ≤ bound + 52) (low : 0 ≤ m.log2 + e) (accuracy : Accuracy) :
    Whole bound (roundWithAccuracy Format.binary64 .positive m e accuracy) := by
  have nonzero : m ≠ 0 := by omega
  have more : 52 ≤ m.log2 := (Nat.le_log2 nonzero).mpr least
  have fewer : m.log2 < n := (Nat.log2_lt nonzero).mpr bits
  have target : target m e = m.log2 + e - 52 := by
    unfold target
    omega
  have full : 2 ^ 52 ≤ m / 2 ^ (Decimal.target m e - e).toNat := by
    rw [Nat.le_div_iff_mul_le (Nat.two_pow_pos _), ← Nat.pow_add]
    refine (Nat.pow_le_pow_right (by decide) ?_).trans (Nat.log2_self_le nonzero)
    omega
  rcases roundWithAccuracy_cases .positive m e accuracy with
    ⟨r, positive, above, small, rounded⟩ | ⟨positive, rounded⟩ | ⟨zero, rounded⟩
  · rw [rounded]
    exact ⟨full.trans above, small, by omega, by omega⟩
  · rw [rounded]
    exact ⟨le_rfl, by decide, by omega, by omega⟩
  · omega

/-! ### Packing -/

theorem unpackSign_packComponents {spec : Format} (sign : Sign) (e : BitVec spec.exponentBits)
    (m : BitVec spec.mantissaBitsWithoutImplicit) :
    unpackSign (packComponents spec sign e m) = sign.toBitVec := by
  refine BitVec.eq_of_getLsbD_eq fun i least => ?_
  obtain rfl : i = 0 := by omega
  simp [unpackSign, packComponents, BitVec.getLsbD_append, BitVec.getElem_append]

theorem toNat_append_one (m : BitVec 52) : (1#1 ++ m).toNat = 2 ^ 52 + m.toNat := by
  rw [BitVec.toNat_append, ← Nat.shiftLeft_add_eq_or_of_lt m.isLt]
  rfl

theorem unpack_packComponents (sign : Sign) (e : BitVec 11) (m : BitVec 52) :
    UnpackedFloat.unpack Format.binary64 (packComponents Format.binary64 sign e m) =
      if e = -1#11 then if m = 0#52 then .infinity sign else .notANumber
      else if e = 0#11 then
        if h : m = 0#52 then .zero sign
        else .finite sign m.toNat (e.toNat - 1075 + 1)
          (by simpa [BitVec.toNat_pos, BitVec.pos_iff_ne_zero])
      else .finite sign (1#1 ++ m).toNat (e.toNat - 1075) (by rw [toNat_append_one]; omega) := by
  have signs : Sign.ofBitVec sign.toBitVec = sign := by cases sign <;> rfl
  simp only [UnpackedFloat.unpack, unpackMantissa_packComponents, unpackExponent_packComponents,
    unpackSign_packComponents, signs]
  rfl

/-- The exponent as it is stored. -/
theorem stored_exponent {e : Int} (low : -1074 ≤ e) (high : e ≤ 971) :
    let stored : BitVec 11 := BitVec.ofNat 11 (e + 1023 + 52).toNat
    stored ≠ -1#11 ∧ stored ≠ 0#11 ∧ (stored.toNat : Int) - 1075 = e := by
  have value : (BitVec.ofNat 11 (e + 1023 + 52).toNat).toNat = (e + 1023 + 52).toNat := by
    rw [BitVec.toNat_ofNat, Nat.mod_eq_of_lt]
    omega
  refine ⟨fun same => ?_, fun same => ?_, by rw [value]; omega⟩
  · have := congrArg BitVec.toNat same
    rw [value] at this
    have : (-1#11 : BitVec 11).toNat = 2047 := by decide
    omega
  · have := congrArg BitVec.toNat same
    rw [value] at this
    have : (0#11 : BitVec 11).toNat = 0 := by decide
    omega

theorem unpack_pack_of_full {m : Nat} {e : Int} {positive : 0 < m} (least : 2 ^ 52 ≤ m)
    (small : m < 2 ^ 53) (low : -1074 ≤ e) (high : e ≤ 971) :
    UnpackedFloat.unpack Format.binary64 (UnpackedFloat.pack Format.binary64 (.finite .positive m e positive)) =
      .finite .positive m e positive := by
  have digits : m.log2 + 1 = 53 := by
    have := (Nat.le_log2 (by omega)).mpr least
    have := (Nat.log2_lt (by omega : m ≠ 0)).mpr small
    omega
  obtain ⟨finite, normal, same⟩ := stored_exponent low high
  have packed : UnpackedFloat.pack Format.binary64 (.finite .positive m e positive) =
      packComponents Format.binary64 .positive (BitVec.ofNat 11 (e + 1023 + 52).toNat)
        (BitVec.ofNat 52 m) := by
    have fits : ¬ 2 ^ 11 ≤ (e + 1023 + 52).toNat + 1 := by omega
    unfold UnpackedFloat.pack
    exact (if_neg fits).trans (if_pos digits)
  have mantissa : (1#1 ++ BitVec.ofNat 52 m).toNat = m := by
    rw [toNat_append_one, BitVec.toNat_ofNat]
    omega
  rw [packed, unpack_packComponents, if_neg finite, if_neg normal]
  simp only [mantissa, same]

theorem unpack_pack_zero (sign : Sign) :
    UnpackedFloat.unpack Format.binary64 (UnpackedFloat.pack Format.binary64 (.zero sign)) =
      .zero sign := by
  change UnpackedFloat.unpack _ (packComponents Format.binary64 sign 0#11 0#52) = _
  rw [unpack_packComponents, if_neg (by decide), if_pos rfl, dif_pos rfl]

theorem within_unpack_pack {bound : Int} {u : UnpackedFloat} (within : Within bound u)
    (low : -1074 ≤ bound) (high : bound ≤ 971) :
    Within bound (UnpackedFloat.unpack Format.binary64 (UnpackedFloat.pack Format.binary64 u)) := by
  unfold Within at within
  split at within
  · rw [unpack_pack_zero]
    trivial
  · rename_i m e positive
    obtain ⟨small, least, below⟩ := within
    by_cases full : 2 ^ 52 ≤ m
    · rw [unpack_pack_of_full full small least (below.trans high)]
      exact ⟨small, least, below⟩
    · -- a number with fewer digits is stored with the least exponent
      have digits : ¬ m.log2 + 1 = 53 := by
        have := (Nat.log2_lt (by omega : m ≠ 0)).mpr (by omega : m < 2 ^ 52)
        omega
      have packed : UnpackedFloat.pack Format.binary64 (.finite .positive m e positive) =
          packComponents Format.binary64 .positive 0#11 (BitVec.ofNat 52 m) := by
        have fits : ¬ 2 ^ 11 ≤ (e + 1023 + 52).toNat + 1 := by omega
        unfold UnpackedFloat.pack
        exact (if_neg fits).trans (if_neg digits)
      rw [packed, unpack_packComponents, if_neg (by decide), if_pos rfl]
      split
      · trivial
      · exact ⟨(BitVec.isLt _).trans (by decide), by decide, by simpa using low⟩
  · exact within.elim

theorem whole_unpack_pack {bound : Int} {u : UnpackedFloat} (whole : Whole bound u)
    (high : bound ≤ 971) :
    Whole bound (UnpackedFloat.unpack Format.binary64 (UnpackedFloat.pack Format.binary64 u)) := by
  unfold Whole at whole
  split at whole
  · obtain ⟨least, small, low, below⟩ := whole
    rw [unpack_pack_of_full least small (by omega) (below.trans high)]
    exact ⟨least, small, low, below⟩
  · exact whole.elim

/-! ### Operations -/

theorem shiftLeft_lt {m n : Nat} (bits : m < 2 ^ n) (k : Nat) : m <<< k < 2 ^ (n + k) := by
  rw [Nat.shiftLeft_eq, Nat.pow_add]
  exact Nat.mul_lt_mul_of_pos_right bits (Nat.two_pow_pos k)

theorem within_round {m n : Nat} {e bound : Int} (bits : m < 2 ^ n) (room : e + n ≤ bound + 52)
    (high : e < bound) (low : -1074 < bound) :
    Within bound (UnpackedFloat.round Format.binary64 .positive m e) := by
  generalize amount : (e - Format.binary64.targetExponent (totalExponent m e)).toNat = k
  have rounded : UnpackedFloat.round Format.binary64 .positive m e =
      roundWithAccuracy Format.binary64 .positive (m <<< k) (e - k) .exact := by
    simp only [UnpackedFloat.round, decreaseExponent, amount]
  rw [rounded]
  exact within_roundWithAccuracy (shiftLeft_lt bits k) (by omega) (by omega) low .exact

/-- The place of a number in the order of those that are neither negative nor infinite. -/
def rank : UnpackedFloat → Nat
  | .finite _ m e _ => (e + 1075).toNat * 2 ^ 53 + m
  | _ => 0

section Operations

variable {bound bound' : Int} {u v : UnpackedFloat}

theorem Within.mul (first : Within bound u) (second : Within bound' v)
    (low : -1074 < bound + bound' + 54) :
    Within (bound + bound' + 54) (UnpackedFloat.mul Format.binary64 u v) := by
  obtain ⟨_, rfl⟩ | ⟨m, e, positive, rfl, small, -, high⟩ := first.cases <;>
    obtain ⟨_, rfl⟩ | ⟨m', e', positive', rfl, small', -, high'⟩ := second.cases
  · trivial
  · trivial
  · trivial
  · refine within_roundWithAccuracy (n := 106) ?_ (by omega) (by omega) low .exact
    exact (Nat.mul_lt_mul'' small small').trans_le (by norm_num)

theorem Within.add (first : Within bound u) (second : Within bound v) (low : -1074 < bound) :
    Within (bound + 2) (UnpackedFloat.add Format.binary64 u v) := by
  have more : bound ≤ bound + 2 := by omega
  obtain ⟨_, rfl⟩ | ⟨m, e, positive, rfl, small, -, high⟩ := first.cases <;>
    obtain ⟨_, rfl⟩ | ⟨m', e', positive', rfl, small', -, high'⟩ := second.cases
  · rw [UnpackedFloat.add]
    split <;> trivial
  · exact second.mono more
  · exact first.mono more
  · generalize amount : (e - min e e').toNat = k
    generalize amount' : (e' - min e e').toNat = k'
    have sum : UnpackedFloat.add Format.binary64 (.finite .positive m e positive)
        (.finite .positive m' e' positive') =
          UnpackedFloat.normalize Format.binary64 ((m <<< k + m' <<< k' : Nat) : Int) (min e e')
            .positive := by
      simp only [UnpackedFloat.add, decreaseExponent, amount, amount', Sign.apply, Int.natCast_add]
    -- both mantissas have at most as many digits as the one that was shifted further
    have bits : m <<< k + m' <<< k' < 2 ^ (54 + max k k') := by
      have left := (shiftLeft_lt small k).trans_le
        (Nat.pow_le_pow_right (by decide) (by omega : 53 + k ≤ 53 + max k k'))
      have right := (shiftLeft_lt small' k').trans_le
        (Nat.pow_le_pow_right (by decide) (by omega : 53 + k' ≤ 53 + max k k'))
      have twice : 2 ^ (54 + max k k') = 2 ^ (53 + max k k') + 2 ^ (53 + max k k') := by
        rw [← Nat.two_mul, ← Nat.pow_succ']
        congr 1
        omega
      omega
    rw [sum, UnpackedFloat.normalize]
    split
    · rename_i negative
      exact absurd (Int.compare_eq_lt.mp negative) (Int.natCast_nonneg _).not_gt
    · trivial
    · exact within_round bits (by omega) (by omega) (by omega)

theorem Within.compare (first : Within bound u) (second : Within bound' v) :
    UnpackedFloat.compare u v = some (Ord.compare (rank u) (rank v)) := by
  obtain ⟨_, rfl⟩ | ⟨m, e, positive, rfl, small, low, -⟩ := first.cases <;>
    obtain ⟨_, rfl⟩ | ⟨m', e', positive', rfl, small', low', -⟩ := second.cases
  · rfl
  · have less : (0 : Nat) < (e' + 1075).toNat * 2 ^ 53 + m' := by omega
    exact congrArg some (Nat.compare_eq_lt.mpr less).symm
  · have less : (0 : Nat) < (e + 1075).toNat * 2 ^ 53 + m := by omega
    exact congrArg some (Nat.compare_eq_gt.mpr less).symm
  · refine congrArg some ?_
    rcases lt_trichotomy e e' with less | rfl | greater
    · rw [Int.compare_eq_lt.mpr less]
      refine (Nat.compare_eq_lt.mpr ?_).symm
      simp only [rank]
      omega
    · rw [Int.compare_eq_eq.mpr rfl]
      have same : Ord.compare m m' = Ord.compare (rank (.finite .positive m e positive))
          (rank (.finite .positive m' e positive')) := by
        simp only [rank, Nat.compare_eq_ite_lt, Nat.add_lt_add_iff_left]
      exact same
    · rw [Int.compare_eq_gt.mpr greater]
      refine (Nat.compare_eq_gt.mpr ?_).symm
      simp only [rank]
      omega

theorem Within.div (first : Within bound u) (second : Within bound' v) (le : rank u ≤ rank v)
    (positive : 0 < rank v) : Within 1 (UnpackedFloat.div Format.binary64 u v) := by
  obtain ⟨_, rfl⟩ | ⟨m', e', positive', rfl, small', low', -⟩ := second.cases
  · simp [rank] at positive
  obtain ⟨_, rfl⟩ | ⟨m, e, positive, rfl, small, low, -⟩ := first.cases
  · trivial
  have exponents : e ≤ e' := by
    simp only [rank] at le
    omega
  generalize divided : divCore Format.binary64 m e m' e' = core
  obtain ⟨q, t, accuracy⟩ := core
  have quotient : UnpackedFloat.div Format.binary64 (.finite .positive m e positive)
      (.finite .positive m' e' positive') =
        roundWithAccuracy Format.binary64 .positive q t accuracy := by
    simp only [UnpackedFloat.div, divided]
    rfl
  simp only [divCore, Prod.mk.injEq] at divided
  obtain ⟨rfl, target, -⟩ := divided
  have least : t ≤ e - e' := by omega
  rw [quotient, target]
  refine within_roundWithAccuracy (n := 53 + (e - e' - t).toNat) ?_ (by omega) (by omega)
    (by decide) accuracy
  exact (Nat.div_le_self _ _).trans_lt (shiftLeft_lt small _)

end Operations

/-! ### Floating-point numbers -/

/-- A floating-point number that is neither negative nor infinite, with an exponent up to a
bound. -/
def Bounded (bound : Int) (x : Float) : Prop := Within bound x.toModel.unpack

instance (bound : Int) (x : Float) : Decidable (Bounded bound x) :=
  inferInstanceAs (Decidable (Within _ _))

/-- The place of a floating-point number among those that are neither negative nor infinite. -/
def rankOf (x : Float) : Nat := rank x.toModel.unpack

theorem zero_unpack : (0.0 : Float).toModel.unpack = .zero .positive := rfl

theorem one_unpack : (1.0 : Float).toModel.unpack =
    .finite .positive (2 ^ 52) (-52) (by decide) := rfl

theorem bounded_zero (bound : Int) : Bounded bound 0.0 := by
  rw [Bounded, zero_unpack]
  trivial

theorem le_iff_compare {x y : Float} : x ≤ y ↔
    (UnpackedFloat.compare x.toModel.unpack y.toModel.unpack).any (·.isLE) = true := by
  change decide ((UnpackedFloat.compare _ _).any (·.isLE) = true) = true ↔ _
  rw [decide_eq_true_eq]

section Floats

variable {bound bound' : Int} {x y : Float}

theorem Bounded.mono (bounded : Bounded bound x) (le : bound ≤ bound') : Bounded bound' x :=
  Within.mono bounded le

theorem Bounded.mul (first : Bounded bound x) (second : Bounded bound' y)
    (low : -1074 < bound + bound' + 54) (high : bound + bound' + 54 ≤ 971) :
    Bounded (bound + bound' + 54) (x * y) :=
  within_unpack_pack (Within.mul first second low) low.le high

theorem Bounded.add (first : Bounded bound x) (second : Bounded bound y) (low : -1074 < bound)
    (high : bound + 2 ≤ 971) : Bounded (bound + 2) (x + y) :=
  within_unpack_pack (Within.add first second low) (by omega) high

theorem Bounded.div (first : Bounded bound x) (second : Bounded bound' y)
    (le : rankOf x ≤ rankOf y) (positive : 0 < rankOf y) : Bounded 1 (x / y) :=
  within_unpack_pack (Within.div first second le positive) (by decide) (by decide)

theorem Bounded.lt_iff (first : Bounded bound x) (second : Bounded bound' y) :
    x < y ↔ rankOf x < rankOf y := by
  have compared : x < y ↔ (UnpackedFloat.compare x.toModel.unpack y.toModel.unpack == some .lt) = true := by
    change decide ((UnpackedFloat.compare _ _ == some .lt) = true) = true ↔ _
    rw [decide_eq_true_eq]
  rw [compared, Within.compare first second]
  simp [rankOf, Nat.compare_eq_lt]

theorem Bounded.le_iff (first : Bounded bound x) (second : Bounded bound' y) :
    x ≤ y ↔ rankOf x ≤ rankOf y := by
  rw [le_iff_compare, Within.compare first second]
  simp [rankOf, Nat.isLE_compare]

theorem Bounded.beq_iff (first : Bounded bound x) (second : Bounded bound' y) :
    (x == y) = true ↔ rankOf x = rankOf y := by
  have compared : (x == y) = (UnpackedFloat.compare x.toModel.unpack y.toModel.unpack == some .eq) := rfl
  rw [compared, Within.compare first second]
  simp [rankOf]

end Floats

/-! ### Any floating-point number -/

theorem exponent_unpack {s : Sign} {f : Float.Model} {m : Nat} {e : Int} {positive : 0 < m}
    (unpacked : f.unpack = .finite s m e positive) : m < 2 ^ 53 ∧ -1074 ≤ e ∧ e ≤ 971 := by
  unfold Float.Model.unpack UnpackedFloat.unpack at unpacked
  dsimp only at unpacked
  let mantissa : BitVec 52 := @unpackMantissa Format.binary64 f.toBits.toBitVec
  let exponent : BitVec 11 := @unpackExponent Format.binary64 f.toBits.toBitVec
  have small : mantissa.toNat < 2 ^ 52 := mantissa.isLt
  have normal : (1#1 ++ mantissa).toNat = 2 ^ 52 + mantissa.toNat := toNat_append_one mantissa
  have bias : (Format.binary64.exponentBias : Int) + (52 : Nat) = 1075 := rfl
  rw [bias] at unpacked
  split at unpacked
  · split at unpacked <;> cases unpacked
  · rename_i finite
    have below : exponent.toNat < 2047 := by
      have := exponent.isLt
      have : exponent.toNat ≠ 2047 := fun same => finite (BitVec.eq_of_toNat_eq same)
      omega
    split at unpacked
    · rename_i least
      have zero : exponent.toNat = 0 := congrArg BitVec.toNat least
      split at unpacked
      · cases unpacked
      · obtain ⟨-, rfl, rfl⟩ := UnpackedFloat.finite.inj unpacked
        change mantissa.toNat < 2 ^ 53 ∧ -1074 ≤ (exponent.toNat : Int) - 1075 + 1 ∧
          (exponent.toNat : Int) - 1075 + 1 ≤ 971
        omega
    · rename_i subnormal
      obtain ⟨-, rfl, rfl⟩ := UnpackedFloat.finite.inj unpacked
      have above : exponent.toNat ≠ 0 := fun same => subnormal (BitVec.eq_of_toNat_eq same)
      change (1#1 ++ mantissa).toNat < 2 ^ 53 ∧ -1074 ≤ (exponent.toNat : Int) - 1075 ∧
        (exponent.toNat : Int) - 1075 ≤ 971
      omega

/-- Whatever is not below zero is infinite or has a small exponent. -/
theorem bounded_of_nonneg {x : Float} (nonneg : 0.0 ≤ x) (finite : x.isFinite = true) :
    Bounded 971 x := by
  change UnpackedFloat.isFinite x.toModel.unpack = true at finite
  rw [le_iff_compare, zero_unpack] at nonneg
  unfold Bounded
  cases unpacked : x.toModel.unpack with
  | infinity sign => simp [unpacked, UnpackedFloat.isFinite] at finite
  | notANumber => simp [unpacked, UnpackedFloat.isFinite] at finite
  | zero sign => trivial
  | finite sign m e positive =>
    cases sign with
    | positive => exact exponent_unpack unpacked
    | negative => simp [unpacked, UnpackedFloat.compare] at nonneg

theorem isFinite_of_le_one {x : Float} (nonneg : 0.0 ≤ x) (le : x ≤ 1.0) : x.isFinite = true := by
  change UnpackedFloat.isFinite x.toModel.unpack = true
  rw [le_iff_compare, zero_unpack] at nonneg
  rw [le_iff_compare, one_unpack] at le
  cases unpacked : x.toModel.unpack with
  | infinity sign => cases sign <;> simp [unpacked, UnpackedFloat.compare] at nonneg le
  | notANumber => simp [unpacked, UnpackedFloat.compare] at nonneg
  | _ => rfl

/-! ### Natural numbers -/

theorem log2_shiftLeft {m : Nat} (positive : 0 < m) (k : Nat) : (m <<< k).log2 = m.log2 + k := by
  have nonzero : m <<< k ≠ 0 := by
    rw [Nat.shiftLeft_eq]
    positivity
  have above : 2 ^ (m.log2 + k) ≤ m <<< k := by
    rw [Nat.shiftLeft_eq, Nat.pow_add]
    exact Nat.mul_le_mul_right _ (Nat.log2_self_le positive.ne')
  have below : m <<< k < 2 ^ (m.log2 + 1 + k) := shiftLeft_lt Nat.lt_log2_self k
  have := (Nat.le_log2 nonzero).mpr above
  have := (Nat.log2_lt nonzero).mpr below
  omega

/-- A natural number is rounded when its mantissa has been filled up with zeros. -/
theorem round_eq (m : Nat) {e : Int} (low : -1022 ≤ m.log2 + e) :
    UnpackedFloat.round Format.binary64 .positive m e =
      roundWithAccuracy Format.binary64 .positive (m <<< (52 - m.log2)) (e - (52 - m.log2 : Nat))
        .exact := by
  have target : Format.binary64.targetExponent (totalExponent m e) = m.log2 + e - 52 := by
    simp only [Format.targetExponent, totalExponent, Format.mantissaBits, Format.minExponent]
    norm_num
    omega
  have amount : (e - (m.log2 + e - 52)).toNat = 52 - m.log2 := by omega
  simp only [UnpackedFloat.round, decreaseExponent, target, amount]

theorem le_shiftLeft {m : Nat} (positive : 0 < m) : 2 ^ 52 ≤ m <<< (52 - m.log2) := by
  rw [← Nat.le_log2 (by rw [Nat.shiftLeft_eq]; positivity), log2_shiftLeft positive]
  omega

theorem whole_round {m n : Nat} {e bound : Int} (positive : 0 < m) (bits : m < 2 ^ n)
    (room : e + n ≤ bound + 52) (low : 0 ≤ m.log2 + e) :
    Whole bound (UnpackedFloat.round Format.binary64 .positive m e) := by
  have digits := log2_shiftLeft positive (52 - m.log2)
  rw [round_eq m (by omega)]
  exact whole_roundWithAccuracy (le_shiftLeft positive) (shiftLeft_lt bits _) (by omega) (by omega)
    .exact

theorem ofNat_eq {n : Nat} (positive : 0 < n) : UnpackedFloat.ofNat Format.binary64 n =
    UnpackedFloat.round Format.binary64 .positive n 0 := by
  rw [UnpackedFloat.ofNat, UnpackedFloat.ofInt, UnpackedFloat.normalize,
    Int.compare_eq_gt.mpr (by omega)]
  rfl

theorem whole_ofNat {n bits : Nat} (positive : 0 < n) (small : n < 2 ^ bits) :
    Whole (bits - 52) (UnpackedFloat.ofNat Format.binary64 n) := by
  rw [ofNat_eq positive]
  exact whole_round positive small (by omega) (by omega)

theorem ofScientific_eq (spec : Format) {n : Nat} {e : Int} (nonzero : n ≠ 0) (whole : 0 ≤ e)
    (small : ¬ e > 2 ^ spec.exponentBits) : UnpackedFloat.ofScientific spec n e =
      roundWithAccuracy spec .positive (n <<< spec.mantissaBits * 10 ^ e.toNat)
        (-spec.mantissaBits + 0) .exact := by
  have large : ¬ e < -((2 ^ spec.exponentBits : Int) + n.log2) := by
    have : (0 : Int) < 2 ^ spec.exponentBits := by positivity
    omega
  rw [UnpackedFloat.ofScientific, dif_neg nonzero, if_neg small, if_neg large, if_pos whole]
  rfl

theorem ofScientific_zero {n : Nat} (nonzero : n ≠ 0) :
    UnpackedFloat.ofScientific Format.binary64 n 0 =
      roundWithAccuracy Format.binary64 .positive (n <<< 53) (-53) .exact := by
  have rounded := ofScientific_eq Format.binary64 nonzero le_rfl (by norm_num)
  have digits : Format.binary64.mantissaBits = 53 := rfl
  simp only [digits, Int.toNat_zero, Nat.pow_zero, Nat.mul_one] at rounded
  exact rounded

/-- A small count is read as an integer, which is multiplied by one. -/
theorem unpack_ofScientific_of_lt {n : Nat} (small : n < 2 ^ 53) :
    (Float.ofScientific n false 0).toModel.unpack =
      UnpackedFloat.unpack Format.binary64 (UnpackedFloat.pack Format.binary64
        (UnpackedFloat.mul Format.binary64
          (UnpackedFloat.unpack Format.binary64 (UnpackedFloat.pack Format.binary64
            (UnpackedFloat.ofNat Format.binary64 n)))
          (.finite .positive (2 ^ 52) (-52) (by decide)))) := by
  have word : n.toUInt64.toNat = n := by
    rw [Nat.toUInt64, UInt64.toNat_ofNat']
    omega
  have product : Float.ofScientific n false 0 =
      n.toUInt64.toFloat * getElem Float.exactlyRepresentablePowersOfTen 0 (by decide) := by
    rw [Float.ofScientific, dif_pos ⟨small, by decide⟩]
    rfl
  have one : (getElem Float.exactlyRepresentablePowersOfTen 0 (by decide)).toModel.unpack =
      .finite .positive (2 ^ 52) (-52) (by decide) := rfl
  rw [product, ← one]
  nth_rewrite 2 [← word]
  rfl

/-- Any other count is rounded. -/
theorem unpack_ofScientific_of_le {n : Nat} (large : 2 ^ 53 ≤ n) :
    (Float.ofScientific n false 0).toModel.unpack =
      UnpackedFloat.unpack Format.binary64 (UnpackedFloat.pack Format.binary64
        (roundWithAccuracy Format.binary64 .positive (n <<< 53) (-53) .exact)) := by
  have model : (Float.ofScientific n false 0).toModel = Float.Model.ofScientific n 0 := by
    rw [Float.ofScientific, dif_neg fun both => both.1.not_ge large]
    rfl
  rw [model, ← ofScientific_zero (by omega)]
  rfl

/-- A count is read as a number that is not below one, unless it is none. -/
theorem whole_ofScientific {n : Nat} (positive : 0 < n) (small : n < 2 ^ 64) :
    Whole 12 (Float.ofScientific n false 0).toModel.unpack := by
  by_cases fast : n < 2 ^ 53
  · have number := whole_unpack_pack (whole_ofNat positive fast) (by decide)
    rw [unpack_ofScientific_of_lt fast]
    refine whole_unpack_pack ?_ (by decide)
    generalize UnpackedFloat.unpack Format.binary64 _ = u at number
    unfold Whole at number
    split at number
    · rename_i m e positive
      obtain ⟨least, small, low, high⟩ := number
      have digits := log2_shiftLeft positive 52
      have more : 52 ≤ m.log2 := (Nat.le_log2 positive.ne').mpr least
      rw [Nat.shiftLeft_eq] at digits
      exact whole_roundWithAccuracy (n := 105) (by omega) (by omega) (by omega) (by omega) .exact
    · exact number.elim
  · have digits := log2_shiftLeft positive 53
    have least : 2 ^ 52 ≤ n <<< 53 := by
      rw [Nat.shiftLeft_eq]
      omega
    have bits := shiftLeft_lt small 53
    rw [unpack_ofScientific_of_le (Nat.le_of_not_lt fast)]
    generalize n <<< 53 = m at digits least bits
    exact whole_unpack_pack (whole_roundWithAccuracy least bits (by omega) (by omega) .exact)
      (by decide)

theorem Whole.one_le {bound : Int} {x : Float} (whole : Whole bound x.toModel.unpack) :
    rankOf 1.0 ≤ rankOf x := by
  unfold rankOf
  rw [one_unpack]
  generalize x.toModel.unpack = u at whole
  unfold Whole at whole
  split at whole
  · simp only [rank]
    omega
  · exact whole.elim

theorem bounded_ofNat {n : Nat} (small : n < 2 ^ 64) : Bounded 12 (Float.ofNat n) := by
  rcases Nat.eq_zero_or_pos n with rfl | positive
  · decide +kernel
  · exact (whole_ofScientific positive small).within

end RepoAudit.Decimal
