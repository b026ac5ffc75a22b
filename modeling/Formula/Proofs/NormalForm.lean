import Formula.Proofs.Normal

set_option autoImplicit false

/-! # Every value has one normal form

A value can be held at several scales, but only at one of them without a zero at the end of the
fraction. So numbers are equal exactly if they are normalized to the same number. -/

namespace Formula

theorem tenPow_add (j k : Nat) : tenPow (j + k) = tenPow j * tenPow k :=
  Nat.pow_add 10 j k

theorem tenPow_pos (k : Nat) : 0 < tenPow k :=
  Nat.pow_pos (by decide)

namespace Decimal

variable {a b : Decimal}

/-! ## Normal forms -/

/-- No zero stands at the end of the fraction, and zero has no sign. -/
structure IsNormal (d : Decimal) : Prop where
  last : d.scale = 0 ∨ d.mantissa % 10 ≠ 0
  sign : d.mantissa = 0 → d.negative = false

theorem stripZeros_last (mantissa scale : Nat) :
    (stripZeros mantissa scale).2 = 0 ∨ (stripZeros mantissa scale).1 % 10 ≠ 0 := by
  induction scale generalizing mantissa with
  | zero => exact .inl rfl
  | succ scale ih =>
    rw [stripZeros]
    split
    · exact ih (mantissa / 10)
    · next hlast => exact .inr hlast

theorem isNormal_normalize (d : Decimal) : d.normalize.IsNormal where
  last := stripZeros_last d.mantissa d.scale
  sign h := by
    have hmantissa := stripZeros_mul d.mantissa d.scale
    rw [show (stripZeros d.mantissa d.scale).1 = 0 from h, Nat.zero_mul] at hmantissa
    simp [normalize, isZero, ← hmantissa]

/-! ## Values -/

theorem natAbs_signed (d : Decimal) : d.signed.natAbs = d.mantissa := by
  rw [signed]
  split <;> simp

/-- Only a number that is not zero shows its sign in its value. -/
theorem negative_iff_signed {d : Decimal} (h : d.mantissa ≠ 0) :
    d.negative = true ↔ d.signed < 0 := by
  rw [signed]
  split
  · next hnegative =>
    simp only [hnegative, true_iff]
    omega
  · next hpositive =>
    simp only [hpositive, Bool.false_eq_true, false_iff]
    omega

theorem signedAt_add (d : Decimal) {scale : Nat} (h : d.scale ≤ scale) (k : Nat) :
    d.signedAt (scale + k) = d.signedAt scale * tenPow k := by
  rw [signedAt, signedAt, Nat.sub_add_comm h, tenPow_add, Int.natCast_mul, Int.mul_assoc]

/-- Normalizing keeps the value at every scale that holds it. -/
theorem signedAt_normalize_of_le (d : Decimal) {scale : Nat} (h : d.scale ≤ scale) :
    d.normalize.signedAt scale = d.signedAt scale := by
  obtain ⟨k, rfl⟩ := Nat.exists_eq_add_of_le h
  have hself : d.signedAt d.scale = d.signed := by simp [signedAt, tenPow]
  rw [signedAt_add _ (stripZeros_le d.mantissa d.scale).2, signedAt_add _ (Nat.le_refl _),
    signedAt_normalize, hself]

theorem same_iff :
    a.same b = true ↔ a.signedAt (max a.scale b.scale) = b.signedAt (max a.scale b.scale) := by
  simp only [same, cmp, beq_iff_eq, Std.compare_eq_iff_eq]

/-! ## Normal forms of one value -/

/-- Of two numbers with one magnitude, one that is normal has no more fraction digits. -/
theorem IsNormal.scale_le (hb : b.IsNormal) {scale : Nat} (hscale : b.scale ≤ scale)
    (h : a.mantissa * tenPow (scale - a.scale) = b.mantissa * tenPow (scale - b.scale)) :
    b.scale ≤ a.scale := by
  refine Nat.le_of_not_lt fun hlt => ?_
  -- the digits that `b` has more are zeros
  obtain ⟨k, hk⟩ : ∃ k, scale - a.scale = (k + 1) + (scale - b.scale) :=
    ⟨b.scale - a.scale - 1, by omega⟩
  rw [hk, tenPow_add, ← Nat.mul_assoc] at h
  have hmantissa := Nat.eq_of_mul_eq_mul_right (tenPow_pos _) h
  rw [tenPow_succ, ← Nat.mul_assoc] at hmantissa
  rcases hb.last with hzero | hlast
  · omega
  · omega

/-- Two normal forms of one value are the same number. -/
theorem IsNormal.eq_of_signedAt (ha : a.IsNormal) (hb : b.IsNormal) {scale : Nat}
    (hascale : a.scale ≤ scale) (hbscale : b.scale ≤ scale)
    (h : a.signedAt scale = b.signedAt scale) : a = b := by
  have hmagnitude :
      a.mantissa * tenPow (scale - a.scale) = b.mantissa * tenPow (scale - b.scale) := by
    simpa [signedAt, Int.natAbs_mul, natAbs_signed] using congrArg Int.natAbs h
  have hscale : a.scale = b.scale :=
    Nat.le_antisymm (ha.scale_le hascale hmagnitude.symm) (hb.scale_le hbscale hmagnitude)
  rw [hscale] at hmagnitude
  have hmantissa := Nat.eq_of_mul_eq_mul_right (tenPow_pos _) hmagnitude
  have hsigned : a.signed = b.signed := by
    rw [signedAt, signedAt, hscale] at h
    exact Int.eq_of_mul_eq_mul_right (Int.natCast_ne_zero.2 (Nat.ne_of_gt (tenPow_pos _))) h
  have hsign : a.negative = b.negative := by
    by_cases hzero : a.mantissa = 0
    · rw [ha.sign hzero, hb.sign (hmantissa ▸ hzero)]
    · rw [Bool.eq_iff_iff, negative_iff_signed hzero,
        negative_iff_signed (hmantissa ▸ hzero), hsigned]
  cases a
  cases b
  simp_all

/-- Numbers are equal exactly if they are normalized to the same number. -/
theorem same_iff_normalize_eq : a.same b = true ↔ a.normalize = b.normalize := by
  have ha := Nat.le_max_left a.scale b.scale
  have hb := Nat.le_max_right a.scale b.scale
  rw [same_iff, ← a.signedAt_normalize_of_le ha, ← b.signedAt_normalize_of_le hb]
  constructor
  · intro h
    have hascale := (stripZeros_le a.mantissa a.scale).2
    have hbscale := (stripZeros_le b.mantissa b.scale).2
    exact a.isNormal_normalize.eq_of_signedAt b.isNormal_normalize (Nat.le_trans hascale ha)
      (Nat.le_trans hbscale hb) h
  · intro h
    rw [h]

end Decimal

end Formula
