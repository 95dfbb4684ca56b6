import RepoAudit.Proofs.Decimal.Bounds

/-!
# Signs of floating-point numbers

A number and its negation differ in their sign only, so that they have the same size. To subtract
the other way round gives the negation, unless nothing is left.
-/

namespace RepoAudit.Decimal

open Float.Model UnpackedFloat

/-! ### Packing -/

theorem unpack_pack_neg (u : UnpackedFloat) :
    UnpackedFloat.unpack Format.binary64 (UnpackedFloat.pack Format.binary64 u.neg) =
      (UnpackedFloat.unpack Format.binary64 (UnpackedFloat.pack Format.binary64 u)).neg := by
  have components (sign : Sign) (e : BitVec 11) (m : BitVec 52) :
      UnpackedFloat.unpack Format.binary64 (packComponents Format.binary64 (-sign) e m) =
        (UnpackedFloat.unpack Format.binary64 (packComponents Format.binary64 sign e m)).neg := by
    rw [unpack_packComponents, unpack_packComponents]
    split_ifs <;> rfl
  cases u with
  | notANumber => rfl
  | infinity sign => exact components sign _ _
  | zero sign => exact components sign _ _
  | finite sign m e positive =>
    simp only [UnpackedFloat.neg, UnpackedFloat.pack]
    split_ifs <;> exact components sign _ _

theorem unpacked_neg_neg (u : UnpackedFloat) : u.neg.neg = u := by
  cases u with
  | notANumber => rfl
  | _ sign => cases sign <;> rfl

theorem unpacked_abs_neg (u : UnpackedFloat) : u.neg.abs = u.abs := by cases u <;> rfl

/-! ### Differences -/

theorem round_neg (sign : Sign) (m : Nat) (e : Int) :
    UnpackedFloat.round Format.binary64 (-sign) m e =
      (UnpackedFloat.round Format.binary64 sign m e).neg := by
  simp only [UnpackedFloat.round, roundWithAccuracy_eq]
  split_ifs <;> rfl

theorem normalize_neg {m : Int} (nonzero : m ≠ 0) (e : Int) (sign : Sign) :
    UnpackedFloat.normalize Format.binary64 (-m) e sign =
      (UnpackedFloat.normalize Format.binary64 m e sign).neg := by
  rcases Int.lt_or_gt_of_ne nonzero with below | above
  · rw [UnpackedFloat.normalize, UnpackedFloat.normalize, Int.compare_eq_gt.mpr (by omega),
      Int.compare_eq_lt.mpr below]
    exact round_neg .negative _ _
  · rw [UnpackedFloat.normalize, UnpackedFloat.normalize, Int.compare_eq_lt.mpr (by omega),
      Int.compare_eq_gt.mpr above, Int.neg_neg]
    exact round_neg .positive _ _

/-- To subtract the other way round gives the negation, unless nothing is left. -/
theorem unpacked_sub_comm (u v : UnpackedFloat) :
    UnpackedFloat.sub Format.binary64 v u = (UnpackedFloat.sub Format.binary64 u v).neg ∨
      UnpackedFloat.sub Format.binary64 u v = .zero .positive ∧
        UnpackedFloat.sub Format.binary64 v u = .zero .positive := by
  cases u with
  | notANumber => cases v <;> exact .inl rfl
  | infinity sign =>
    cases v with
    | infinity sign' => cases sign <;> cases sign' <;> exact .inl rfl
    | _ => exact .inl rfl
  | zero sign =>
    cases v with
    | zero sign' =>
      cases sign <;> cases sign' <;> first | exact .inl rfl | exact .inr ⟨rfl, rfl⟩
    | infinity sign' => cases sign' <;> exact .inl rfl
    | finite sign' m e positive => cases sign' <;> exact .inl rfl
    | notANumber => exact .inl rfl
  | finite sign m e positive =>
    cases v with
    | notANumber => exact .inl rfl
    | infinity sign' => cases sign' <;> exact .inl rfl
    | zero sign' => exact .inl rfl
    | finite sign' m' e' positive' =>
      generalize left : sign.apply (m <<< (e - min e e').toNat : Nat) = a
      generalize right : sign'.apply (m' <<< (e' - min e e').toNat : Nat) = b
      have forth : UnpackedFloat.sub Format.binary64 (.finite sign m e positive)
          (.finite sign' m' e' positive') =
            UnpackedFloat.normalize Format.binary64 (a - b) (min e e') .positive := by
        simp only [UnpackedFloat.sub, decreaseExponent, left, right]
      have back : UnpackedFloat.sub Format.binary64 (.finite sign' m' e' positive')
          (.finite sign m e positive) =
            UnpackedFloat.normalize Format.binary64 (-(a - b)) (min e e') .positive := by
        simp only [UnpackedFloat.sub, decreaseExponent, min_comm e' e, left, right, Int.neg_sub]
      rw [forth, back]
      by_cases zero : a - b = 0
      · rw [zero]
        exact .inr ⟨rfl, rfl⟩
      · exact .inl (normalize_neg zero _ _)

/-- A number leaves nothing when itself is subtracted. -/
theorem unpacked_sub_self (u : UnpackedFloat) :
    UnpackedFloat.sub Format.binary64 u u = .notANumber ∨
      UnpackedFloat.sub Format.binary64 u u = .zero .positive := by
  cases u with
  | notANumber => exact .inl rfl
  | infinity sign => cases sign <;> exact .inl rfl
  | zero sign => cases sign <;> exact .inr rfl
  | finite sign m e positive =>
    refine .inr ?_
    simp only [UnpackedFloat.sub, Int.sub_self]
    rfl

/-! ### Floating-point numbers -/

theorem pack_unpack (f : Float.Model) : Float.Model.pack f.unpack = f := by
  have bits : UnpackedFloat.pack Format.binary64 f.unpack = f.toBits.toBitVec :=
    pack_unpack_of_valid f.valid
  cases f
  simp only [Float.Model.pack, bits]

theorem neg_pack (u : UnpackedFloat) : (Float.Model.pack u).neg = Float.Model.pack u.neg := by
  have unpacked : (Float.Model.pack u).unpack.neg = (Float.Model.pack u.neg).unpack :=
    (unpack_pack_neg u).symm
  rw [Float.Model.neg, unpacked, pack_unpack]

theorem float_neg_neg (x : Float) : - -x = x := by
  have twice : x.toModel.neg.neg = x.toModel :=
    calc x.toModel.neg.neg
      _ = (Float.Model.pack x.toModel.unpack.neg).neg := rfl
      _ = x.toModel := by rw [neg_pack, unpacked_neg_neg, pack_unpack]
  exact congrArg Float.ofModel twice

/-- A number and its negation have one size. -/
theorem float_abs_neg (x : Float) : (-x).abs = x.abs := by
  have unpacked : x.toModel.neg.unpack = x.toModel.unpack.neg := by
    conv_lhs => rw [← pack_unpack x.toModel, neg_pack]
    exact (unpack_pack_neg _).trans (congrArg (fun f => f.unpack.neg) (pack_unpack x.toModel))
  have model : x.toModel.neg.abs = x.toModel.abs := by
    rw [Float.Model.abs, Float.Model.abs, unpacked, unpacked_abs_neg]
  exact congrArg Float.ofModel model

/-- Numbers subtracted either way round differ in the sign, or nothing is left. -/
theorem float_sub_comm (x y : Float) : y - x = -(x - y) ∨ x - y = 0.0 ∧ y - x = 0.0 := by
  rcases unpacked_sub_comm x.toModel.unpack y.toModel.unpack with turned | ⟨none, none'⟩
  · have model : y.toModel.sub x.toModel = (x.toModel.sub y.toModel).neg := by
      rw [Float.Model.sub, Float.Model.sub, neg_pack, turned]
    exact .inl (congrArg Float.ofModel model)
  · exact .inr ⟨congrArg (fun u => Float.ofModel (Float.Model.pack u)) none,
      congrArg (fun u => Float.ofModel (Float.Model.pack u)) none'⟩

theorem float_abs_sub_comm (x y : Float) : (x - y).abs = (y - x).abs := by
  rcases float_sub_comm x y with turned | ⟨none, none'⟩
  · rw [turned, float_abs_neg]
  · rw [none, none']

theorem float_neg_sub {x y : Float} (left : (x - y).abs ≠ 0.0) : -(x - y) = y - x := by
  rcases float_sub_comm x y with turned | ⟨none, -⟩
  · exact turned.symm
  · rw [none] at left
    exact absurd rfl left

/-- Of equal numbers nothing is left, if their difference is a number. -/
theorem float_abs_sub_of_equal {x y : Float} (equal : x = y ∨ (x == y) = true) :
    (x - y).abs = 0.0 ∨ (x - y).abs = Float.nan := by
  have size {u : UnpackedFloat}
      (same : UnpackedFloat.sub Format.binary64 x.toModel.unpack y.toModel.unpack = u) :
      (x - y).abs = Float.ofModel (Float.Model.pack u).abs :=
    congrArg (fun u => Float.ofModel (Float.Model.pack u).abs) same
  have itself (same : x.toModel.unpack = y.toModel.unpack) :
      (x - y).abs = 0.0 ∨ (x - y).abs = Float.nan := by
    rcases unpacked_sub_self y.toModel.unpack with none | zero
    · exact .inr (size (u := .notANumber) (by rw [same, none]))
    · exact .inl (size (u := .zero .positive) (by rw [same, zero]))
  rcases equal with rfl | equal
  · exact itself rfl
  · obtain ⟨-, -, cases⟩ := (beq_iff_ne_notANumber_and_eq _ _).mp equal
    rcases cases with same | ⟨first, second⟩ | ⟨first, second⟩
    · exact itself same
    · exact .inl (size (u := .zero .positive) (by rw [first, second]; rfl))
    · exact .inl (size (u := .zero .negative) (by rw [first, second]; rfl))

end RepoAudit.Decimal
