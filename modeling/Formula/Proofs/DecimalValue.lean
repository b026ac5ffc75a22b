import Formula.Proofs.NormalForm
import Mathlib.Algebra.Order.Field.Rat
import Mathlib.Tactic.FieldSimp
import Mathlib.Tactic.Linarith
import Mathlib.Tactic.NormNum
import Mathlib.Tactic.Positivity
import Mathlib.Tactic.Ring

set_option autoImplicit false

/-! # The value of a number

A decimal stands for a rational number, and equality of decimals is equality of these. Moving the
point never rounds: either the number with the point moved is in range and is answered exactly, or
there is no answer at all. -/

namespace Formula

@[simp]
theorem cast_tenPow (k : Nat) : (tenPow k : ℚ) = 10 ^ k := by
  rw [show tenPow k = 10 ^ k from rfl, Nat.cast_pow, Nat.cast_ofNat]

theorem abs_mul_power (x : ℚ) (k : Nat) : |x * 10 ^ k| = |x| * 10 ^ k := by
  rw [abs_mul, abs_of_pos (by positivity : (0 : ℚ) < 10 ^ k)]

namespace Decimal

variable {a b d e : Decimal}

/-! ## Values -/

/-- The rational number that a decimal stands for. -/
def value (d : Decimal) : ℚ := d.signed / 10 ^ d.scale

theorem cast_signedAt (d : Decimal) {scale : Nat} (h : d.scale ≤ scale) :
    (d.signedAt scale : ℚ) = d.value * 10 ^ scale := by
  obtain ⟨k, rfl⟩ := Nat.exists_eq_add_of_le h
  rw [signedAt, Nat.add_sub_cancel_left, Int.cast_mul, Int.cast_natCast, cast_tenPow,
    value, pow_add]
  field_simp

/-- Numbers are equal exactly if they have the same value. -/
theorem same_iff_value_eq : a.same b = true ↔ a.value = b.value := by
  have hpower : (10 : ℚ) ^ max a.scale b.scale ≠ 0 := by positivity
  rw [same_iff, ← Int.cast_inj (α := ℚ), cast_signedAt a (Nat.le_max_left ..),
    cast_signedAt b (Nat.le_max_right ..), mul_left_inj' hpower]

theorem value_normalize (d : Decimal) : d.normalize.value = d.value :=
  (same_iff_value_eq.1 d.same_normalize).symm

theorem abs_value (d : Decimal) : |d.value| = d.mantissa / 10 ^ d.scale := by
  have hsigned : |d.signed| = d.mantissa := by rw [Int.abs_eq_natAbs, natAbs_signed]
  rw [value, abs_div, abs_of_pos (by positivity : (0 : ℚ) < 10 ^ d.scale), ← Int.cast_abs, hsigned,
    Int.cast_natCast]

theorem value_of_unsigned (h : d.negative = false) : d.value = d.mantissa / 10 ^ d.scale := by
  simp [value, signed, h]

theorem value_eq_zero_iff : d.value = 0 ↔ d.mantissa = 0 := by
  rw [← abs_eq_zero, abs_value]
  simp

/-- Of two numbers with the same sign, one has the value of the other with the point moved if their
    magnitudes say so. The sign of a zero does not matter. -/
theorem value_eq_mul_of_mantissa {x : ℚ} (hsign : e.negative = d.negative ∨ e.mantissa = 0)
    (h : (e.mantissa : ℚ) / 10 ^ e.scale = d.mantissa / 10 ^ d.scale * x) :
    e.value = d.value * x := by
  rcases hsign with hsign | hzero
  · simp only [value, signed, hsign]
    split
    · push_cast
      rw [neg_div, neg_div, h, neg_mul]
    · exact h
  · have hvalue := value_eq_zero_iff.2 hzero
    rw [hzero, Nat.cast_zero, zero_div, eq_comm, mul_eq_zero] at h
    rw [hvalue, eq_comm, mul_eq_zero]
    refine h.imp_left fun hd => ?_
    rw [← abs_eq_zero, abs_value, hd]

/-! ## Building -/

theorem ofParts?_eq_some_iff {negative : Bool} {mantissa scale : Nat} :
    ofParts? negative mantissa scale = some d ↔
      d.negative = negative ∧ d.mantissa = mantissa ∧ d.scale = scale := by
  unfold ofParts?
  constructor
  · intro h
    split at h
    · cases h
      exact ⟨rfl, rfl, rfl⟩
    · cases h
  · rintro ⟨rfl, rfl, rfl⟩
    exact dif_pos ⟨d.mantissa_lt, d.scale_le⟩

theorem exists_ofParts? {negative : Bool} {mantissa scale : Nat} (hmantissa : mantissa < bound)
    (hscale : scale ≤ maxScale) : ∃ d, ofParts? negative mantissa scale = some d :=
  ⟨_, dif_pos ⟨hmantissa, hscale⟩⟩

/-- The sign of a result is the one asked for, unless the result is zero. -/
theorem ofResult?_eq_some {negative : Bool} {mantissa scale : Nat}
    (h : ofResult? negative mantissa scale = some d) :
    (d.negative = negative ∨ d.mantissa = 0) ∧ d.mantissa = mantissa ∧ d.scale = scale := by
  obtain ⟨hnegative, hmantissa, hscale⟩ := ofParts?_eq_some_iff.1 h
  refine ⟨?_, hmantissa, hscale⟩
  by_cases hzero : mantissa = 0
  · exact .inr (hmantissa.trans hzero)
  · rw [bne_iff_ne.2 hzero, Bool.and_true] at hnegative
    exact .inl hnegative

/-! ## Products with a power of ten -/

theorem mul_tenPow_div (m : Nat) {n k : Nat} (h : k ≤ n) :
    m * tenPow n / tenPow k = m * tenPow (n - k) := by
  obtain ⟨j, rfl⟩ := Nat.exists_eq_add_of_le h
  rw [tenPow_add, Nat.add_sub_cancel_left, Nat.mul_left_comm,
    Nat.mul_div_cancel_left _ (tenPow_pos k)]

theorem mul_tenPow_mod (m : Nat) {n k : Nat} (h : k ≤ n) : m * tenPow n % tenPow k = 0 := by
  obtain ⟨j, rfl⟩ := Nat.exists_eq_add_of_le h
  rw [tenPow_add, Nat.mul_left_comm, Nat.mul_mod_right]

theorem roundEven_exact (q : Nat) {divisor : Nat} (h : 0 < divisor) :
    roundEven q 0 divisor = q := by
  rw [roundEven, if_neg (by omega)]

/-- As long as only zeros are dropped, nothing is rounded. -/
theorem shrink_mul_tenPow (m : Nat) {n k : Nat} (h : k ≤ n) (scale : Nat) :
    shrink (m * tenPow n) k scale =
      if m * tenPow (n - k) < bound then some (m * tenPow (n - k), scale)
      else
        match scale with
        | 0 => none
        | scale + 1 => shrink (m * tenPow n) (k + 1) scale := by
  rw [shrink.eq_def]
  dsimp only
  rw [mul_tenPow_div m h, mul_tenPow_mod m h, roundEven_exact _ (tenPow_pos k)]
  split
  · rfl
  · next hlarge =>
    cases scale with
    | zero => rfl
    | succ scale => exact if_pos (Nat.not_lt.1 hlarge)

/-- Fewer than `n` digits are too many only if zeros are among them that can be dropped. -/
theorem lt_of_bound_le {m n k : Nat} (hm : m < bound) (h : ¬ m * tenPow (n - k) < bound) :
    k < n := by
  refine Nat.lt_of_not_le fun hle => h ?_
  rw [Nat.sub_eq_zero_of_le hle]
  simpa [tenPow] using hm

/-- What is kept of a mantissa with zeros at its end is exact. -/
theorem exact_of_shrink {m n k scale : Nat} (hm : m < bound) (hk : k ≤ n) {kept : Nat × Nat}
    (h : shrink (m * tenPow n) k scale = some kept) :
    kept.1 < bound ∧ kept.2 ≤ scale ∧
      kept.1 * tenPow (k + scale) = m * tenPow n * tenPow kept.2 := by
  induction scale generalizing k with
  | zero =>
    rw [shrink_mul_tenPow m hk] at h
    split at h
    · next hfits =>
      cases h
      refine ⟨hfits, Nat.le_refl 0, ?_⟩
      rw [Nat.add_zero, Nat.mul_assoc, ← tenPow_add, Nat.sub_add_cancel hk]
      exact (Nat.mul_one _).symm
    · cases h
  | succ scale ih =>
    rw [shrink_mul_tenPow m hk] at h
    split at h
    · next hfits =>
      cases h
      refine ⟨hfits, Nat.le_refl _, ?_⟩
      rw [tenPow_add, ← Nat.mul_assoc, Nat.mul_assoc m, ← tenPow_add, Nat.sub_add_cancel hk]
    · next hlarge =>
      obtain ⟨hbound, hscale, hexact⟩ := ih (lt_of_bound_le hm hlarge) h
      refine ⟨hbound, Nat.le_succ_of_le hscale, ?_⟩
      rw [← hexact, Nat.add_right_comm k 1 scale, Nat.add_assoc]

/-- There is something to keep exactly if dropping all zeros that the scale allows is enough. -/
theorem exists_shrink_iff {m n k scale : Nat} (hm : m < bound) (hk : k ≤ n) :
    (∃ kept, shrink (m * tenPow n) k scale = some kept) ↔ m * tenPow (n - (k + scale)) < bound := by
  induction scale generalizing k with
  | zero =>
    rw [shrink_mul_tenPow m hk, Nat.add_zero]
    split
    · next hfits => simp [hfits]
    · next hlarge => simp [hlarge]
  | succ scale ih =>
    rw [shrink_mul_tenPow m hk]
    split
    · next hfits =>
      refine iff_of_true ⟨_, rfl⟩ (Nat.lt_of_le_of_lt (Nat.mul_le_mul_left m ?_) hfits)
      exact Nat.pow_le_pow_right (by decide) (by omega)
    · next hlarge =>
      rw [ih (lt_of_bound_le hm hlarge), Nat.add_right_comm k 1 scale, Nat.add_assoc]

/-- A number times a power of ten is in range exactly if the mantissa with the zeros that its
    scale does not take in is. -/
theorem abs_value_mul_lt_iff (d : Decimal) (n : Nat) :
    |d.value| * 10 ^ n < bound ↔ d.mantissa * tenPow (n - d.scale) < bound := by
  have hscale : (0 : ℚ) < 10 ^ d.scale := by positivity
  rw [abs_value, div_mul_eq_mul_div, div_lt_iff₀ hscale]
  rcases Nat.le_total n d.scale with h | h
  · obtain ⟨k, hk⟩ := Nat.exists_eq_add_of_le h
    refine iff_of_true ?_ ?_
    · have hmantissa : (d.mantissa : ℚ) < bound := by exact_mod_cast d.mantissa_lt
      have hpower : (10 : ℚ) ^ n ≤ 10 ^ d.scale := pow_le_pow_right₀ (by norm_num) h
      have hpos : (0 : ℚ) < 10 ^ n := by positivity
      exact mul_lt_mul hmantissa hpower hpos (by positivity)
    · rw [Nat.sub_eq_zero_of_le h]
      simpa [tenPow] using d.mantissa_lt
  · obtain ⟨k, rfl⟩ := Nat.exists_eq_add_of_le h
    rw [Nat.add_sub_cancel_left, pow_add, mul_comm ((10 : ℚ) ^ d.scale), ← mul_assoc,
      mul_lt_mul_iff_left₀ hscale, ← cast_tenPow]
    exact_mod_cast Iff.rfl

/-- Ten to the `n` as a number. -/
def IsPower (p : Decimal) (n : Nat) : Prop := ofParts? false (tenPow n) 0 = some p

variable {p : Decimal} {n : Nat}

/-- What a product with a power of ten is made of. -/
theorem mul?_power_eq (hp : IsPower p n) (hd : d.mantissa ≠ 0) :
    d.mul? p = (shrink (d.mantissa * tenPow n) 0 d.scale).bind fun kept =>
      ofResult? d.negative kept.1 kept.2 := by
  obtain ⟨hnegative, hmantissa, hscale⟩ := ofParts?_eq_some_iff.1 hp
  have hpower : p.isZero = false := by
    simpa [isZero, hmantissa] using Nat.ne_of_gt (tenPow_pos n)
  have hzero : d.isZero = false := by simpa [isZero] using hd
  have hfit : fit (d.mantissa * tenPow n) d.scale = shrink (d.mantissa * tenPow n) 0 d.scale := by
    rw [fit, Nat.sub_eq_zero_of_le d.scale_le, Nat.min_eq_left d.scale_le]
  have hsmall : ¬ 47 < d.scale := Nat.not_lt.2 (Nat.le_trans d.scale_le (by decide))
  simp only [mul?, hnegative, hmantissa, hscale, hpower, hzero, Bool.or_false, Bool.bne_false,
    Bool.false_eq_true, if_false, Nat.add_zero, hfit, hsmall]
  split
  · rfl
  · -- no zero comes out, so the rule for its sign makes no difference
    refine Option.bind_congr fun kept hkept => ?_
    have hexact := (exact_of_shrink d.mantissa_lt (Nat.zero_le n) hkept).2.2
    have hne : kept.1 ≠ 0 := by
      intro hkeptZero
      rw [hkeptZero, Nat.zero_mul, eq_comm, Nat.mul_eq_zero, Nat.mul_eq_zero] at hexact
      have hpos := tenPow_pos
      rcases hexact with (hmantissaZero | hn) | hs
      · exact hd hmantissaZero
      · exact absurd hn (Nat.ne_of_gt (hpos n))
      · exact absurd hs (Nat.ne_of_gt (hpos kept.2))
    rw [ofResult?, bne_iff_ne.2 hne, Bool.and_true]

theorem mul?_of_mantissa_zero (hd : d.mantissa = 0) (b : Decimal) : d.mul? b = some zero := by
  simp [mul?, isZero, hd]

/-- A product with a power of ten is exact. -/
theorem value_of_mul?_power (hp : IsPower p n) (h : d.mul? p = some e) :
    e.value = d.value * 10 ^ n := by
  by_cases hd : d.mantissa = 0
  · rw [mul?_of_mantissa_zero hd] at h
    cases h
    rw [value_eq_zero_iff.2 hd, zero_mul]
    exact value_eq_zero_iff.2 rfl
  · rw [mul?_power_eq hp hd] at h
    obtain ⟨kept, hkept, h⟩ := Option.bind_eq_some_iff.1 h
    obtain ⟨hsign, hmantissa, hscale⟩ := ofResult?_eq_some h
    obtain ⟨-, -, hexact⟩ := exact_of_shrink d.mantissa_lt (Nat.zero_le n) hkept
    refine value_eq_mul_of_mantissa hsign ?_
    rw [Nat.zero_add, ← hmantissa, ← hscale] at hexact
    have hcast := congrArg (Nat.cast (R := ℚ)) hexact
    push_cast [cast_tenPow] at hcast
    field_simp
    linarith

/-- A product with a power of ten exists exactly if its value is in range. -/
theorem exists_mul?_power_iff (hp : IsPower p n) :
    (∃ e, d.mul? p = some e) ↔ |d.value| * 10 ^ n < bound := by
  by_cases hd : d.mantissa = 0
  · rw [mul?_of_mantissa_zero hd, value_eq_zero_iff.2 hd]
    simp
  · rw [mul?_power_eq hp hd, abs_value_mul_lt_iff, ← Nat.zero_add d.scale,
      ← exists_shrink_iff d.mantissa_lt (Nat.zero_le n), Nat.zero_add]
    constructor
    · rintro ⟨e, h⟩
      obtain ⟨kept, hkept, -⟩ := Option.bind_eq_some_iff.1 h
      exact ⟨kept, hkept⟩
    · rintro ⟨kept, hkept⟩
      obtain ⟨hbound, hscale, -⟩ := exact_of_shrink d.mantissa_lt (Nat.zero_le n) hkept
      rw [hkept]
      exact exists_ofParts? hbound (Nat.le_trans hscale d.scale_le)

/-! ## Moving the point -/

/-- Moving the point to the left takes fraction digits and changes nothing else. -/
theorem scaleDown?_eq_some_iff :
    d.scaleDown? n = some e ↔
      e.negative = d.negative ∧ e.mantissa = d.mantissa ∧ e.scale = d.scale + n := by
  unfold scaleDown?
  split
  · next hlarge =>
    simp only [reduceCtorEq, false_iff, not_and]
    intro _ _ hscale
    have := e.scale_le
    omega
  · exact ofParts?_eq_some_iff

theorem value_of_scaleDown? (h : d.scaleDown? n = some e) : e.value = d.value / 10 ^ n := by
  obtain ⟨hnegative, hmantissa, hscale⟩ := scaleDown?_eq_some_iff.1 h
  rw [div_eq_mul_inv]
  refine value_eq_mul_of_mantissa (.inl hnegative) ?_
  rw [hmantissa, hscale, pow_add]
  field_simp

/-- The point can be moved to the left as long as there are places for the digits. -/
theorem exists_scaleDown?_iff : (∃ e, d.scaleDown? n = some e) ↔ d.scale + n ≤ maxScale := by
  constructor
  · rintro ⟨e, h⟩
    obtain ⟨-, -, hscale⟩ := scaleDown?_eq_some_iff.1 h
    exact hscale ▸ e.scale_le
  · intro h
    exact ⟨⟨d.negative, d.mantissa, d.scale + n, d.mantissa_lt, h⟩,
      scaleDown?_eq_some_iff.2 ⟨rfl, rfl, rfl⟩⟩

theorem exists_isPower {n : Nat} (h : n ≤ maxScale) : ∃ p, IsPower p n := by
  refine exists_ofParts? (Nat.lt_of_le_of_lt (?_ : tenPow n ≤ tenPow maxScale) (by decide))
    (Nat.zero_le _)
  exact Nat.pow_le_pow_right (by decide) h

/-- Moving the point to the right past the fraction digits multiplies with two powers of ten. -/
theorem scaleUp?_eq_some_iff (h : d.scale < n) :
    d.scaleUp? n = some e ↔
      n ≤ maxScale ∧ ∃ first second middle product, IsPower first (min n 19) ∧
        IsPower second (n - min n 19) ∧ d.mul? first = some middle ∧
        middle.mul? second = some product ∧ product.normalize = e := by
  unfold scaleUp?
  rw [if_neg (Nat.not_le.2 h)]
  by_cases hn : maxScale < n
  · simp [hn, Nat.not_le.2 hn]
  · rw [if_neg hn]
    simp only [Option.bind_eq_bind, Option.bind_eq_some_iff, Nat.not_lt.1 hn, true_and, IsPower,
      Option.pure_def, Option.some.injEq]
    tauto

/-- The point is moved to the right exactly. -/
theorem value_of_scaleUp? (h : d.scaleUp? n = some e) : e.value = d.value * 10 ^ n := by
  rcases le_or_gt n d.scale with hn | hn
  · rw [scaleUp?, if_pos hn] at h
    obtain ⟨hnegative, hmantissa, hscale⟩ := ofParts?_eq_some_iff.1 h
    refine value_eq_mul_of_mantissa (.inl hnegative) ?_
    obtain ⟨k, hk⟩ := Nat.exists_eq_add_of_le hn
    rw [hmantissa, hscale, hk, Nat.add_sub_cancel_left, pow_add]
    field_simp
  · obtain ⟨-, first, second, middle, product, hfirst, hsecond, hmiddle, hproduct, rfl⟩ :=
      (scaleUp?_eq_some_iff hn).1 h
    rw [value_normalize, value_of_mul?_power hsecond hproduct, value_of_mul?_power hfirst hmiddle,
      mul_assoc, ← pow_add, Nat.add_sub_cancel' (Nat.min_le_left ..)]

/-- The point can be moved to the right by at most 28 places, as long as the
    value stays in range. -/
theorem exists_scaleUp?_iff :
    (∃ e, d.scaleUp? n = some e) ↔ n ≤ maxScale ∧ |d.value| * 10 ^ n < bound := by
  rcases le_or_gt n d.scale with hn | hn
  · have hfits : d.mantissa * tenPow (n - d.scale) < bound := by
      rw [Nat.sub_eq_zero_of_le hn]
      simpa [tenPow] using d.mantissa_lt
    refine iff_of_true ?_ ⟨Nat.le_trans hn d.scale_le, (abs_value_mul_lt_iff d n).2 hfits⟩
    rw [scaleUp?, if_pos hn]
    exact exists_ofParts? d.mantissa_lt (Nat.le_trans (Nat.sub_le ..) d.scale_le)
  · have hsplit : (10 : ℚ) ^ n = 10 ^ min n 19 * 10 ^ (n - min n 19) := by
      rw [← pow_add, Nat.add_sub_cancel' (Nat.min_le_left ..)]
    constructor
    · rintro ⟨e, h⟩
      obtain ⟨hmax, first, second, middle, product, hfirst, hsecond, hmiddle, hproduct, -⟩ :=
        (scaleUp?_eq_some_iff hn).1 h
      refine ⟨hmax, ?_⟩
      have hrange := (exists_mul?_power_iff hsecond).1 ⟨product, hproduct⟩
      rwa [value_of_mul?_power hfirst hmiddle, abs_mul_power, mul_assoc, ← hsplit] at hrange
    · rintro ⟨hmax, hrange⟩
      obtain ⟨first, hfirst⟩ := exists_isPower (Nat.le_trans (Nat.min_le_left n 19) hmax)
      obtain ⟨second, hsecond⟩ := exists_isPower (Nat.le_trans (Nat.sub_le n (min n 19)) hmax)
      -- what the first factor gives is no larger than the whole product
      have hmiddle : |d.value| * 10 ^ min n 19 < bound := by
        refine lt_of_le_of_lt (mul_le_mul_of_nonneg_left ?_ (abs_nonneg _)) hrange
        exact pow_le_pow_right₀ (by norm_num) (Nat.min_le_left ..)
      obtain ⟨middle, hmiddle⟩ := (exists_mul?_power_iff hfirst).2 hmiddle
      have hproduct : |middle.value| * 10 ^ (n - min n 19) < bound := by
        rwa [value_of_mul?_power hfirst hmiddle, abs_mul_power, mul_assoc, ← hsplit]
      obtain ⟨product, hproduct⟩ := (exists_mul?_power_iff hsecond).2 hproduct
      exact ⟨_, (scaleUp?_eq_some_iff hn).2
        ⟨hmax, first, second, middle, product, hfirst, hsecond, hmiddle, hproduct, rfl⟩⟩

end Decimal

end Formula
