import RepoAudit.Text.Utf8

/-!
# Bytes decoded again

Every text comes back from its bytes.
-/

namespace RepoAudit.Text

/-! ### Bytes as numbers -/

theorem continues_iff {b : UInt8} : continues b = true ↔ 0x80 ≤ b.toNat ∧ b.toNat < 0xC0 := by
  simp [continues, UInt8.le_iff_toNat_le, UInt8.lt_iff_toNat_lt]

theorem startsTwo_iff {a b : UInt8} : startsTwo a b = true ↔
    (0xC2 ≤ a.toNat ∧ a.toNat < 0xE0) ∧ 0x80 ≤ b.toNat ∧ b.toNat < 0xC0 := by
  simp [startsTwo, continues_iff, UInt8.le_iff_toNat_le, UInt8.lt_iff_toNat_lt]

theorem startsThree_iff {a b : UInt8} : startsThree a b = true ↔
    (0xE0 ≤ a.toNat ∧ a.toNat < 0xF0) ∧ (0x80 ≤ b.toNat ∧ b.toNat < 0xC0) ∧
      (a.toNat = 0xE0 → 0xA0 ≤ b.toNat) ∧ (a.toNat = 0xED → b.toNat < 0xA0) := by
  unfold startsThree
  simp only [beq_iff_eq, ← UInt8.toNat_inj, UInt8.reduceToNat]
  split
  · simp [UInt8.le_iff_toNat_le, UInt8.lt_iff_toNat_lt]
    omega
  split
  · simp [UInt8.le_iff_toNat_le, UInt8.lt_iff_toNat_lt]
    omega
  · simp [continues_iff, UInt8.le_iff_toNat_le, UInt8.lt_iff_toNat_lt]
    omega

theorem startsFour_iff {a b : UInt8} : startsFour a b = true ↔
    (0xF0 ≤ a.toNat ∧ a.toNat < 0xF5) ∧ (0x80 ≤ b.toNat ∧ b.toNat < 0xC0) ∧
      (a.toNat = 0xF0 → 0x90 ≤ b.toNat) ∧ (a.toNat = 0xF4 → b.toNat < 0x90) := by
  unfold startsFour
  simp only [beq_iff_eq, ← UInt8.toNat_inj, UInt8.reduceToNat]
  split
  · simp [UInt8.le_iff_toNat_le, UInt8.lt_iff_toNat_lt]
    omega
  split
  · simp [UInt8.le_iff_toNat_le, UInt8.lt_iff_toNat_lt]
    omega
  · simp [continues_iff, UInt8.lt_iff_toNat_lt]
    omega

/-! ### Characters of one to four bytes -/

variable {a b c d : UInt8}

theorem decodedPieces_one (ascii : a.toNat < 0x80) (rest : List UInt8) :
    decodedPieces (a :: rest) = some (Char.ofNat a.toNat) :: decodedPieces rest := by
  rw [decodedPieces.eq_def]
  simp [UInt8.lt_iff_toNat_lt, ascii]

theorem decodedPieces_two (first : startsTwo a b = true) (rest : List UInt8) :
    decodedPieces (a :: b :: rest) =
      some (Char.ofNat ((a.toNat - 0xC0) * 64 + payload b)) :: decodedPieces rest := by
  have above : ¬ a.toNat < 0x80 := by have := startsTwo_iff.mp first; omega
  rw [decodedPieces.eq_def]
  simp [UInt8.lt_iff_toNat_lt, above, first]

theorem decodedPieces_three (first : startsThree a b = true) (second : continues c = true)
    (rest : List UInt8) : decodedPieces (a :: b :: c :: rest) =
      some (Char.ofNat (((a.toNat - 0xE0) * 64 + payload b) * 64 + payload c)) ::
        decodedPieces rest := by
  have above := startsThree_iff.mp first
  have ascii : ¬ a.toNat < 0x80 := by omega
  have two : ¬ startsTwo a b = true := by rw [startsTwo_iff]; omega
  rw [decodedPieces.eq_def]
  simp [UInt8.lt_iff_toNat_lt, ascii, two, first, second]

theorem decodedPieces_four (first : startsFour a b = true) (second : continues c = true)
    (third : continues d = true) (rest : List UInt8) : decodedPieces (a :: b :: c :: d :: rest) =
      some (Char.ofNat ((((a.toNat - 0xF0) * 64 + payload b) * 64 + payload c) * 64 + payload d)) ::
        decodedPieces rest := by
  have above := startsFour_iff.mp first
  have ascii : ¬ a.toNat < 0x80 := by omega
  have two : ¬ startsTwo a b = true := by rw [startsTwo_iff]; omega
  have three : ¬ startsThree a b = true := by rw [startsThree_iff]; omega
  rw [decodedPieces.eq_def]
  simp [UInt8.lt_iff_toNat_lt, ascii, two, three, first, second, third]

theorem toNat_ofNat_small {n : Nat} (small : n < 256) : (UInt8.ofNat n).toNat = n := by
  rw [UInt8.toNat_ofNat', Nat.mod_eq_of_lt small]

theorem toNat_tail (n : Nat) : (UInt8.ofNat (n % 64 + 128)).toNat = n % 64 + 128 :=
  toNat_ofNat_small (by omega)

theorem payload_ofNat (n : Nat) : payload (UInt8.ofNat (n % 64 + 128)) = n % 64 := by
  unfold payload
  rw [toNat_tail]
  omega

/-- The bytes of a character are read as that character. -/
theorem decodedPieces_char (c : Char) (rest : List UInt8) :
    decodedPieces (String.utf8EncodeChar c ++ rest) = some c :: decodedPieces rest := by
  have valid : c.toNat < 0xD800 ∨ (0xDFFF < c.toNat ∧ c.toNat < 0x110000) := c.valid
  have back {n : Nat} (same : n = c.toNat) : some (Char.ofNat n) = some c := by
    rw [same, Char.ofNat_toNat]
  have code : c.val.toNat = c.toNat := rfl
  simp only [String.utf8EncodeChar, code]
  split
  · have one : (UInt8.ofNat c.toNat).toNat = c.toNat := toNat_ofNat_small (by omega)
    exact (decodedPieces_one (by omega) rest).trans (congrArg (· :: _) (back one))
  split
  · have first : (UInt8.ofNat (c.toNat / 64 % 32 + 192)).toNat = c.toNat / 64 % 32 + 192 :=
      toNat_ofNat_small (by omega)
    refine (decodedPieces_two ?_ rest).trans (congrArg (· :: _) (back ?_))
    · rw [startsTwo_iff, first, toNat_tail]
      omega
    · simp only [payload_ofNat, first, Nat.add_sub_cancel]
      omega
  split
  · have first : (UInt8.ofNat (c.toNat / 4096 % 16 + 224)).toNat = c.toNat / 4096 % 16 + 224 :=
      toNat_ofNat_small (by omega)
    refine (decodedPieces_three ?_ ?_ rest).trans (congrArg (· :: _) (back ?_))
    · rw [startsThree_iff, first, toNat_tail]
      omega
    · rw [continues_iff, toNat_tail]
      omega
    · simp only [payload_ofNat, first, Nat.add_sub_cancel]
      omega
  · have first : (UInt8.ofNat (c.toNat / 262144 % 8 + 240)).toNat = c.toNat / 262144 % 8 + 240 :=
      toNat_ofNat_small (by omega)
    refine (decodedPieces_four ?_ ?_ ?_ rest).trans (congrArg (· :: _) (back ?_))
    · rw [startsFour_iff, first, toNat_tail]
      omega
    · rw [continues_iff, toNat_tail]
      omega
    · rw [continues_iff, toNat_tail]
      omega
    · simp only [payload_ofNat, first, Nat.add_sub_cancel]
      omega

theorem decodedPieces_encoded (cs : List Char) : decodedPieces (encoded cs) = cs.map some := by
  induction cs with
  | nil => rw [encoded, List.flatMap_nil, decodedPieces, List.map_nil]
  | cons c rest ih =>
    rw [encoded, List.flatMap_cons, decodedPieces_char, ← encoded, ih, List.map_cons]

theorem decoded?_encoded (cs : List Char) : decoded? (encoded cs) = some cs := by
  rw [decoded?, decodedPieces_encoded, List.mapM_map]
  exact (List.mapM_pure (m := Option) (f := id)).trans (congrArg some (List.map_id cs))

end RepoAudit.Text
