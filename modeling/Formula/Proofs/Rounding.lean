import Formula.Proofs.DecimalValue
import Mathlib.Algebra.Order.Floor.Semifield
import Mathlib.Data.Nat.Find
import Mathlib.Data.Rat.Floor

set_option autoImplicit false

/-! # Sums and products are rounded

What is kept of a number are as many fraction digits as a mantissa can hold, at most 28, and the
last of them is rounded half to even. A number that is too large without fraction digits is out of
range. So much is said about the number alone, and sums and products are rounded in this way: they
do not depend on how their operands are held. -/

namespace Formula.Decimal

/-! ## The nearest integer -/

/-- The integer nearest to a number that is not negative; a half goes to the even one. -/
def nearest (x : ℚ) : Nat :=
  if 1 < 2 * (x - ⌊x⌋₊) ∨ (2 * (x - ⌊x⌋₊) = 1 ∧ ⌊x⌋₊ % 2 = 1) then ⌊x⌋₊ + 1 else ⌊x⌋₊

section Nearest

variable {x y : ℚ} {m : Nat}

/-- No integer is nearer, and a half goes to the even one. -/
theorem nearest_spec (hx : 0 ≤ x) :
    2 * (nearest x : ℚ) ≤ 2 * x + 1 ∧ 2 * x ≤ 2 * nearest x + 1 ∧
      (2 * (nearest x : ℚ) = 2 * x + 1 ∨ 2 * x = 2 * nearest x + 1 → nearest x % 2 = 0) := by
  have hfloor := Nat.floor_le hx
  have hnext := Nat.lt_floor_add_one x
  unfold nearest
  split
  · next h =>
    push_cast
    refine ⟨?_, by linarith, ?_⟩
    · rcases h with h | ⟨h, -⟩ <;> linarith
    · rintro (heq | heq)
      · rcases h with h | ⟨-, hodd⟩
        · linarith
        · omega
      · linarith
  · next h =>
    simp only [not_or, not_lt, not_and] at h
    refine ⟨by linarith, by linarith [h.1], ?_⟩
    rintro (heq | heq)
    · linarith
    · have := h.2 (by linarith)
      omega

/-- Every integer that is nearer than a half is the nearest one. -/
theorem nearest_eq (hbelow : 2 * x < 2 * m + 1) (habove : 2 * (m : ℚ) < 2 * x + 1) (hx : 0 ≤ x) :
    nearest x = m := by
  obtain ⟨hle, hge, -⟩ := nearest_spec hx
  have hlt : nearest x < m + 1 := by
    have : (nearest x : ℚ) < m + 1 := by linarith
    exact_mod_cast this
  have hgt : m < nearest x + 1 := by
    have : (m : ℚ) < nearest x + 1 := by linarith
    exact_mod_cast this
  omega

@[simp]
theorem nearest_natCast (m : Nat) : nearest (m : ℚ) = m :=
  nearest_eq (by linarith) (by linarith) (Nat.cast_nonneg m)

theorem nearest_mono (hx : 0 ≤ x) (h : x ≤ y) : nearest x ≤ nearest y := by
  by_contra hlt
  obtain ⟨hle, -, heven⟩ := nearest_spec hx
  obtain ⟨-, hge, heven'⟩ := nearest_spec (hx.trans h)
  have hnext : (nearest y : ℚ) + 1 ≤ nearest x := by exact_mod_cast Nat.not_le.1 hlt
  -- both are halves, between two integers that follow each other
  have hx' := heven (.inl (by linarith))
  have hy' := heven' (.inr (by linarith))
  have hsucc : (nearest x : ℚ) = nearest y + 1 := by linarith
  have hsucc' : nearest x = nearest y + 1 := by exact_mod_cast hsucc
  omega

/-- The nearest integer to a quotient is computed from the quotient and the remainder. -/
theorem nearest_div (n : Nat) {d : Nat} (hd : 0 < d) :
    nearest ((n : ℚ) / d) = roundEven (n / d) (n % d) d := by
  have hd' : (0 : ℚ) < d := by exact_mod_cast hd
  have hfraction : (n : ℚ) / d - (n / d : Nat) = (n % d : Nat) / d := by
    rw [eq_div_iff hd'.ne', sub_mul, div_mul_cancel₀ _ hd'.ne', sub_eq_iff_eq_add]
    exact_mod_cast (Nat.mod_add_div' n d).symm
  have hover : 1 < 2 * ((n % d : Nat) / d : ℚ) ↔ d < 2 * (n % d) := by
    rw [← mul_div_assoc, one_lt_div hd']
    exact_mod_cast Iff.rfl
  have htie : 2 * ((n % d : Nat) / d : ℚ) = 1 ↔ 2 * (n % d) = d := by
    rw [← mul_div_assoc, div_eq_one_iff_eq hd'.ne']
    exact_mod_cast Iff.rfl
  simp only [nearest, roundEven, Nat.floor_div_eq_div, hfraction, hover, htie]

end Nearest

/-! ## What is kept of a magnitude -/

section Kept

/-- With so many fraction digits the rounded number is in range. -/
def Fits (x : ℚ) (scale : Nat) : Prop := nearest (x * 10 ^ scale) < bound

instance (x : ℚ) : DecidablePred (Fits x) := fun scale =>
  inferInstanceAs (Decidable (nearest (x * 10 ^ scale) < bound))

/-- What is kept of a magnitude: as many fraction digits as fit. -/
def kept (x : ℚ) : Option ℚ :=
  if Fits x 0 then
    let scale := Nat.findGreatest (Fits x) maxScale
    some ((nearest (x * 10 ^ scale) : ℚ) / 10 ^ scale)
  else none

variable {x : ℚ} {m scale : Nat}

theorem Fits.of_le (hx : 0 ≤ x) {more : Nat} (h : Fits x more) (hle : scale ≤ more) :
    Fits x scale := by
  refine Nat.lt_of_le_of_lt (nearest_mono (by positivity) ?_) h
  exact mul_le_mul_of_nonneg_left (pow_le_pow_right₀ (by norm_num) hle) hx

/-- What is rounded to so many fraction digits is kept if no more of them fit,
    or if nothing is lost. -/
theorem kept_eq_some (hx : 0 ≤ x) (hscale : scale ≤ maxScale) (hm : m < bound)
    (hnearest : nearest (x * 10 ^ scale) = m)
    (hlast : (m : ℚ) = x * 10 ^ scale ∨ scale = maxScale ∨ ¬ Fits x (scale + 1)) :
    kept x = some ((m : ℚ) / 10 ^ scale) := by
  have hfits : Fits x scale := by
    rw [Fits, hnearest]
    exact hm
  have hle : scale ≤ Nat.findGreatest (Fits x) maxScale := Nat.le_findGreatest hscale hfits
  have hmost := Nat.findGreatest_le (P := Fits x) maxScale
  have hgreatest : Fits x (Nat.findGreatest (Fits x) maxScale) :=
    Nat.findGreatest_spec hscale hfits
  rw [kept, if_pos (hfits.of_le hx (Nat.zero_le scale))]
  dsimp only
  generalize Nat.findGreatest (Fits x) maxScale = greatest at *
  rcases hlast with hexact | hfull | hmore
  · -- the further digits are zeros
    obtain ⟨k, rfl⟩ := Nat.exists_eq_add_of_le hle
    have hzeros : x * 10 ^ (scale + k) = (m * 10 ^ k : Nat) := by
      rw [pow_add, ← mul_assoc, ← hexact]
      push_cast
      rfl
    rw [hzeros, nearest_natCast, pow_add]
    push_cast
    congr 1
    field_simp
  · obtain rfl : greatest = scale := by omega
    rw [hnearest]
  · obtain rfl : greatest = scale := by
      by_contra hne
      exact hmore (hgreatest.of_le hx (by omega))
    rw [hnearest]

theorem kept_eq_none (h : bound ≤ nearest x) : kept x = none := by
  refine if_neg fun hfits => ?_
  rw [Fits, pow_zero, mul_one] at hfits
  omega

theorem bound_le_nearest (h : (bound : ℚ) ≤ x) : bound ≤ nearest x := by
  have hmono := nearest_mono (Nat.cast_nonneg bound) h
  rwa [nearest_natCast] at hmono

end Kept

/-! ## Dropping digits -/

/-- The parts are those of what is kept of a magnitude. -/
def Keeps (x : ℚ) : Option (Nat × Nat) → Prop
  | some (m, scale) => m < bound ∧ scale ≤ maxScale ∧ kept x = some ((m : ℚ) / 10 ^ scale)
  | none => kept x = none

section Keeps

variable {x : ℚ} {m k scale : Nat}

theorem keeps_some (hx : 0 ≤ x) (hscale : scale ≤ maxScale) (hm : m < bound)
    (hnearest : nearest (x * 10 ^ scale) = m)
    (hlast : (m : ℚ) = x * 10 ^ scale ∨ scale = maxScale ∨ ¬ Fits x (scale + 1)) :
    Keeps x (some (m, scale)) :=
  ⟨hm, hscale, kept_eq_some hx hscale hm hnearest hlast⟩

theorem keeps_none (h : bound ≤ nearest x) : Keeps x none :=
  kept_eq_none h

/-- A magnitude that is rounded up to the bound has one digit less, and that is rounded up too. -/
theorem nearest_div_ten {y : ℚ} (hy : 0 ≤ y) (hbelow : y < bound) (h : bound ≤ nearest y) :
    nearest (y / 10) = 7922816251426433759354395034 := by
  obtain ⟨hle, -, -⟩ := nearest_spec hy
  have hbound : (79228162514264337593543950336 : ℚ) ≤ nearest y := by exact_mod_cast h
  norm_num [bound] at hbelow
  refine nearest_eq ?_ ?_ (by positivity)
  · push_cast
    linarith
  · push_cast
    linarith

theorem roundEven_le (q r divisor : Nat) : roundEven q r divisor ≤ q + 1 := by
  rw [roundEven]
  split <;> omega

theorem cast_div_tenPow_mul (m k scale : Nat) :
    (m : ℚ) / 10 ^ (k + scale) * 10 ^ scale = m / tenPow k := by
  rw [cast_tenPow, pow_add]
  field_simp

/-- Dropping digits rounds the magnitude to the fraction digits that are left. -/
theorem nearest_dropped (m k scale : Nat) :
    nearest ((m : ℚ) / 10 ^ (k + scale) * 10 ^ scale) =
      roundEven (m / tenPow k) (m % tenPow k) (tenPow k) := by
  rw [cast_div_tenPow_mul, nearest_div m (tenPow_pos k)]

theorem keeps_dropped (hscale : scale ≤ maxScale)
    (hlast : k = 0 ∨ scale = maxScale ∨ ¬ Fits ((m : ℚ) / 10 ^ (k + scale)) (scale + 1))
    (h : roundEven (m / tenPow k) (m % tenPow k) (tenPow k) < bound) :
    Keeps ((m : ℚ) / 10 ^ (k + scale))
      (some (roundEven (m / tenPow k) (m % tenPow k) (tenPow k), scale)) := by
  refine keeps_some (by positivity) hscale h (nearest_dropped m k scale) (hlast.imp_left ?_)
  rintro rfl
  rw [cast_div_tenPow_mul]
  simp [tenPow, roundEven, Nat.mod_one]

/-- A quotient that is rounded up to the bound is cut from its unrounded digits. -/
theorem shrink_pred_bound (scale : Nat) :
    shrink (bound - 1) 1 scale = some (7922816251426433759354395034, scale) := by
  rw [shrink.eq_def]
  exact if_pos (by decide)

/-- Digits are dropped until what is left is in range, and the last one that is kept is rounded. -/
theorem keeps_shrink (hscale : scale ≤ maxScale)
    (hlast : k = 0 ∨ scale = maxScale ∨ ¬ Fits ((m : ℚ) / 10 ^ (k + scale)) (scale + 1)) :
    Keeps ((m : ℚ) / 10 ^ (k + scale)) (shrink m k scale) := by
  induction scale generalizing k with
  | zero =>
    rw [shrink.eq_def]
    dsimp only
    split
    · next h => exact keeps_dropped hscale hlast h
    · next h =>
      have hnearest := nearest_dropped m k 0
      rw [pow_zero, mul_one] at hnearest
      exact keeps_none (by rw [hnearest]; exact Nat.not_lt.1 h)
  | succ scale ih =>
    rw [shrink.eq_def]
    dsimp only
    split
    · next h => exact keeps_dropped hscale hlast h
    · next h =>
      have hlarge : ¬ Fits ((m : ℚ) / 10 ^ (k + (scale + 1))) (scale + 1) := by
        rwa [Fits, nearest_dropped]
      split
      · have hshift : k + (scale + 1) = k + 1 + scale := by omega
        rw [hshift] at hlarge ⊢
        exact ih (Nat.le_of_succ_le hscale) (.inr (.inr hlarge))
      · next hq =>
        have hbelow := Nat.not_le.1 hq
        have hpred : m / tenPow k = bound - 1 :=
          Nat.le_antisymm (Nat.le_sub_one_of_lt hbelow)
            (Nat.sub_le_of_le_add (Nat.le_trans (Nat.not_lt.1 h) (roundEven_le ..)))
        rw [hpred, shrink_pred_bound]
        refine keeps_some (by positivity) (Nat.le_of_succ_le hscale) (by decide) ?_
          (.inr (.inr hlarge))
        have htenth : (m : ℚ) / 10 ^ (k + (scale + 1)) * 10 ^ scale =
            (m : ℚ) / 10 ^ (k + (scale + 1)) * 10 ^ (scale + 1) / 10 := by
          rw [pow_succ (10 : ℚ) scale]
          field_simp
        rw [htenth]
        refine nearest_div_ten (by positivity) ?_ (Nat.not_lt.1 hlarge)
        rw [cast_div_tenPow_mul, div_lt_iff₀ (by exact_mod_cast tenPow_pos k)]
        exact_mod_cast (Nat.div_lt_iff_lt_mul (tenPow_pos k)).1 hbelow

theorem keeps_fit (m scale : Nat) : Keeps ((m : ℚ) / 10 ^ scale) (fit m scale) := by
  have hscale : scale - maxScale + min scale maxScale = scale := by omega
  have hkeeps :=
    keeps_shrink (m := m) (k := scale - maxScale) (Nat.min_le_right scale maxScale) (by omega)
  rwa [hscale] at hkeeps

end Keeps

/-! ## Results with a sign -/

/-- What a number is rounded to: what is kept of its magnitude, with its sign. -/
def rounded (x : ℚ) : Option ℚ :=
  (kept |x|).map fun y => if x < 0 then -y else y

section Rounded

variable {a b : Decimal} {x : ℚ} {negative : Bool} {m scale : Nat}

theorem value_eq (d : Decimal) :
    d.value =
      if d.negative then -((d.mantissa : ℚ) / 10 ^ d.scale) else d.mantissa / 10 ^ d.scale := by
  simp only [value, signed]
  split
  · push_cast
    rw [neg_div]
  · rfl

theorem value_ofParts? (hm : m < bound) (hscale : scale ≤ maxScale) (negative : Bool) :
    (ofParts? negative m scale).map value =
      some (if negative then -((m : ℚ) / 10 ^ scale) else m / 10 ^ scale) := by
  rw [ofParts?, dif_pos ⟨hm, hscale⟩, Option.map_some, value_eq]

/-- The sign of a zero does not matter. -/
theorem value_ofResult? (hm : m < bound) (hscale : scale ≤ maxScale) (negative : Bool) :
    (ofResult? negative m scale).map value =
      some (if negative then -((m : ℚ) / 10 ^ scale) else m / 10 ^ scale) := by
  rw [ofResult?, value_ofParts? hm hscale]
  rcases Nat.eq_zero_or_pos m with rfl | hpos
  · simp
  · rw [bne_iff_ne.2 (Nat.ne_of_gt hpos), Bool.and_true]

/-- What is made from the parts that are kept is rounded, however it treats the sign of a zero. -/
theorem rounded_of_keeps {parts : Option (Nat × Nat)} {result : Nat × Nat → Option Decimal}
    (hparts : Keeps |x| parts) (hsign : negative = true ↔ x < 0)
    (hresult : ∀ m scale, m < bound → scale ≤ maxScale → (result (m, scale)).map value =
      some (if negative then -((m : ℚ) / 10 ^ scale) else m / 10 ^ scale)) :
    (parts.bind result).map value = rounded x := by
  cases parts with
  | none =>
    rw [rounded, show kept |x| = none from hparts, Option.bind_none, Option.map_none,
      Option.map_none]
  | some parts =>
    obtain ⟨m, scale⟩ := parts
    obtain ⟨hm, hscale, hkept⟩ := hparts
    rw [rounded, hkept, Option.bind_some, hresult m scale hm hscale]
    simp only [hsign, Option.map_some]

theorem rounded_of_ofResult? {parts : Option (Nat × Nat)} (hparts : Keeps |x| parts)
    (hsign : negative = true ↔ x < 0) :
    (parts.bind fun kept => ofResult? negative kept.1 kept.2).map value = rounded x :=
  rounded_of_keeps hparts hsign fun _ _ hm hscale => value_ofResult? hm hscale negative

/-- A number that a decimal holds is not changed. -/
theorem rounded_value (d : Decimal) : rounded d.value = some d.value := by
  have hmantissa : (d.mantissa : ℚ) = |d.value| * 10 ^ d.scale := by
    rw [abs_value]
    field_simp
  have hkept := kept_eq_some (abs_nonneg d.value) d.scale_le d.mantissa_lt
    (by rw [← hmantissa, nearest_natCast]) (.inl hmantissa)
  rw [rounded, hkept, Option.map_some, ← abs_value]
  split
  · next hneg => rw [abs_of_neg hneg, neg_neg]
  · next hpos => rw [abs_of_nonneg (not_lt.1 hpos)]

@[simp]
theorem value_zero : zero.value = 0 :=
  value_eq_zero_iff.2 rfl

theorem isZero_iff_value : a.isZero = true ↔ a.value = 0 := by
  rw [value_eq_zero_iff, isZero, beq_iff_eq]

theorem value_neg (d : Decimal) : d.neg.value = -d.value := by
  rw [value_eq, value_eq, neg]
  cases d.negative <;> simp

/-! ## Sum, difference, product -/

/-- A sum is the exact sum, rounded. -/
theorem value_add? (a b : Decimal) : (a.add? b).map value = rounded (a.value + b.value) := by
  unfold add?
  split
  · next ha => rw [isZero_iff_value.1 ha, zero_add, rounded_value, Option.map_some]
  · split
    · next hb => rw [isZero_iff_value.1 hb, add_zero, rounded_value, Option.map_some]
    · dsimp only
      have hpower : (0 : ℚ) < 10 ^ max a.scale b.scale := by positivity
      have hsum : a.value + b.value =
          ((a.signedAt (max a.scale b.scale) + b.signedAt (max a.scale b.scale) : Int) : ℚ) /
            10 ^ max a.scale b.scale := by
        rw [eq_div_iff hpower.ne', Int.cast_add, cast_signedAt a (Nat.le_max_left ..),
          cast_signedAt b (Nat.le_max_right ..), add_mul]
      rw [hsum]
      generalize a.signedAt (max a.scale b.scale) + b.signedAt (max a.scale b.scale) = sum
      refine rounded_of_ofResult? ?_ ?_
      · rw [abs_div, abs_of_pos hpower, ← Int.cast_abs, Int.abs_eq_natAbs, Int.cast_natCast]
        exact keeps_fit _ _
      · rw [decide_eq_true_iff, div_neg_iff]
        simp [hpower, hpower.not_gt]

/-- A difference is the exact difference, rounded. -/
theorem value_sub? (a b : Decimal) : (a.sub? b).map value = rounded (a.value - b.value) := by
  unfold sub?
  split
  · next hb =>
    rw [isZero_iff_value.1 hb, sub_zero, rounded_value]
    split
    · next ha => rw [Option.map_some, isZero_iff_value.1 ha, isZero_iff_value.1 hb]
    · rw [Option.map_some]
  · rw [value_add?, value_neg, sub_eq_add_neg]

theorem negative_iff_value (ha : a.value ≠ 0) : a.negative = true ↔ a.value < 0 := by
  have hmantissa : (0 : ℚ) < (a.mantissa : ℚ) / 10 ^ a.scale := by
    rw [← abs_value]
    exact abs_pos.2 ha
  rw [value_eq]
  split
  · next h => simpa [h] using hmantissa
  · next h => simpa [h] using hmantissa.le

/-- The sign of a product or quotient of numbers that are not zero. -/
theorem bne_negative_iff (ha : a.value ≠ 0) (hb : b.value ≠ 0) :
    (a.negative != b.negative) = true ↔
      (0 < a.value ∧ b.value < 0) ∨ (a.value < 0 ∧ 0 < b.value) := by
  have hpositive {d : Decimal} (h : d.value ≠ 0) : 0 < d.value ↔ ¬ d.negative = true := by
    rw [negative_iff_value h, not_lt, lt_iff_le_and_ne, and_iff_left (Ne.symm h)]
  rw [hpositive ha, hpositive hb, ← negative_iff_value ha, ← negative_iff_value hb]
  cases a.negative <;> cases b.negative <;> decide

/-- A product of narrow mantissas at a large scale is nearer to zero than to any other number. -/
theorem keeps_zero (hm : m < narrowBound * narrowBound) (hscale : 47 < scale) :
    Keeps ((m : ℚ) / 10 ^ scale) (some (0, maxScale)) := by
  have hpower : (10 : ℚ) ^ 48 ≤ 10 ^ scale := pow_le_pow_right₀ (by norm_num) hscale
  have hnarrow : (m : ℚ) < 18446744073709551616 := by exact_mod_cast hm
  have hpos : (0 : ℚ) ≤ (m : ℚ) / 10 ^ scale * 10 ^ maxScale := by positivity
  have hsmall : (m : ℚ) / 10 ^ scale * 10 ^ maxScale < 1 / 2 := by
    rw [div_mul_eq_mul_div, div_lt_iff₀ (by positivity), maxScale]
    linarith
  refine keeps_some (by positivity) (Nat.le_refl _) (by decide) ?_ (.inr (.inl rfl))
  refine nearest_eq ?_ ?_ hpos
  · push_cast
    linarith
  · push_cast
    linarith

/-- A product is the exact product, rounded. -/
theorem value_mul? (a b : Decimal) : (a.mul? b).map value = rounded (a.value * b.value) := by
  unfold mul?
  dsimp only
  split
  · next h =>
    have hproduct : a.value * b.value = zero.value := by
      rw [value_zero, mul_eq_zero, ← isZero_iff_value, ← isZero_iff_value]
      simpa using h
    rw [hproduct, rounded_value, Option.map_some]
  · next h =>
    simp only [Bool.or_eq_true, isZero_iff_value, not_or] at h
    have hsign := (bne_negative_iff h.1 h.2).trans mul_neg_iff.symm
    have hmagnitude : |a.value * b.value| =
        ((a.mantissa * b.mantissa : Nat) : ℚ) / 10 ^ (a.scale + b.scale) := by
      rw [abs_mul, abs_value, abs_value, div_mul_div_comm, ← pow_add, Nat.cast_mul]
    have hkeeps := keeps_fit (a.mantissa * b.mantissa) (a.scale + b.scale)
    rw [← hmagnitude] at hkeeps
    split
    · next hnarrow =>
      split
      · next hscale =>
        have hkept := keeps_zero (Nat.mul_lt_mul'' hnarrow.1 hnarrow.2) hscale
        rw [← hmagnitude] at hkept
        rw [rounded, hkept.2.2, Option.map_some, Option.map_some, value_zero]
        simp
      · exact rounded_of_ofResult? hkeeps hsign
    · exact rounded_of_keeps hkeeps hsign fun _ _ hm hscale => value_ofParts? hm hscale _

end Rounded

end Formula.Decimal
