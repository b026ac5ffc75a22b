import Formula.Operation
import Formula.Proofs.Rounding

set_option autoImplicit false

/-! # Quotients are rounded

A quotient grows by groups of digits until it is exact or no further digit fits. What it stands for
stays the same all the while, so at the end it is the exact quotient, rounded as sums and products
are. A remainder needs no rounding. -/

namespace Formula

namespace Decimal

/-! ## Unfinished quotients -/

/-- The magnitude of a quotient `y` that has still room for so many fraction digits. -/
def scaled (y : ℚ) (room : Nat) : ℚ := y * 10 ^ room / 10 ^ maxScale

section Scaled

variable {y : ℚ} {room p : Nat}

theorem scaled_mul (y : ℚ) (h : room ≤ maxScale) : scaled y room * 10 ^ (maxScale - room) = y := by
  have hpower : (10 : ℚ) ^ maxScale = 10 ^ room * 10 ^ (maxScale - room) := by
    rw [← pow_add, Nat.add_sub_cancel' h]
  rw [scaled, hpower]
  field_simp

/-- One digit less. -/
theorem scaled_mul_pred (y : ℚ) (h : room < maxScale) :
    scaled y room * 10 ^ (maxScale - (room + 1)) = y / 10 := by
  have hpower : (10 : ℚ) ^ (maxScale - room) = 10 ^ (maxScale - (room + 1)) * 10 := by
    rw [← pow_succ]
    congr 1
    omega
  rw [eq_div_iff (by norm_num), mul_assoc, ← hpower, scaled_mul y (Nat.le_of_lt h)]

theorem scaled_of_le (y : ℚ) (h : maxScale ≤ room) :
    scaled y room = y * 10 ^ (room - maxScale) := by
  have hpower : (10 : ℚ) ^ room = 10 ^ (room - maxScale) * 10 ^ maxScale := by
    rw [← pow_add, Nat.sub_add_cancel h]
  rw [scaled, hpower]
  field_simp

/-- Digits that a quotient gains take up room. -/
theorem scaled_sub (y : ℚ) (h : p ≤ room) : scaled y room = scaled (y * 10 ^ p) (room - p) := by
  have hpower : (10 : ℚ) ^ room = 10 ^ p * 10 ^ (room - p) := by
    rw [← pow_add, Nat.add_sub_cancel' h]
  rw [scaled, scaled, hpower, mul_assoc]

theorem scaled_nonneg (h : 0 ≤ y) (room : Nat) : 0 ≤ scaled y room := by
  rw [scaled]
  positivity

/-- What is out of range without fraction digits cannot be kept. -/
theorem keeps_none_of_scaled (hroom : maxScale ≤ room)
    (h : (bound : ℚ) ≤ y * 10 ^ (room - maxScale)) :
    Keeps (scaled y room) none := by
  rw [scaled_of_le y hroom]
  exact keeps_none (bound_le_nearest h)

theorem not_fits_scaled (hroom : room ≤ maxScale) (h : (bound : ℚ) ≤ y) :
    ¬ Fits (scaled y room) (maxScale - room) := by
  rw [Fits, scaled_mul y hroom]
  exact Nat.not_lt.2 (bound_le_nearest h)

end Scaled

/-! ## The last digit -/

section Last

variable {q r divisor room : Nat}

/-- A quotient with its remainder. -/
theorem nearest_quotient (q : Nat) (h : r < divisor) :
    nearest (q + (r : ℚ) / divisor) = roundEven q r divisor := by
  have hpos := Nat.lt_of_le_of_lt (Nat.zero_le r) h
  have hquotient : (q : ℚ) + r / divisor = ((q * divisor + r : Nat) : ℚ) / divisor := by
    have hne : (divisor : ℚ) ≠ 0 := by exact_mod_cast hpos.ne'
    push_cast
    field_simp
  have hdiv : (q * divisor + r) / divisor = q := by
    rw [Nat.add_comm, Nat.add_mul_div_right _ _ hpos, Nat.div_eq_of_lt h, Nat.zero_add]
  have hmod : (q * divisor + r) % divisor = r := by
    rw [Nat.add_comm, Nat.add_mul_mod_self_right, Nat.mod_eq_of_lt h]
  rw [hquotient, nearest_div _ hpos, hdiv, hmod]

/-- Without its last digit a quotient is rounded by that digit and by whether
    digits have been lost below it. -/
theorem nearest_dropLast {f : ℚ} (hf : 0 ≤ f) (hone : f < 1) (q : Nat) :
    nearest ((q + f) / 10) =
      if 5 < q % 10 ∨ (q % 10 = 5 ∧ (f ≠ 0 ∨ q / 10 % 2 = 1)) then q / 10 + 1 else q / 10 := by
  rcases eq_or_lt_of_le hf with rfl | hpos
  · have hexact := nearest_div q (by decide : 0 < 10)
    rw [roundEven] at hexact
    push_cast at hexact
    rw [add_zero, hexact]
    refine if_congr ?_ rfl rfl
    simp only [ne_eq, not_true_eq_false, false_or]
    omega
  · have hdigits : (q : ℚ) = 10 * (q / 10 : Nat) + (q % 10 : Nat) := by
      exact_mod_cast (Nat.div_add_mod q 10).symm
    have hnonneg : (0 : ℚ) ≤ (q + f) / 10 := by positivity
    simp only [hpos.ne', ne_eq, not_false_eq_true, true_or, and_true]
    split
    · next h =>
      have hlast : (5 : ℚ) ≤ (q % 10 : Nat) := by exact_mod_cast (by omega : 5 ≤ q % 10)
      have hten : ((q % 10 : Nat) : ℚ) ≤ 9 := by exact_mod_cast (by omega : q % 10 ≤ 9)
      refine nearest_eq ?_ ?_ hnonneg
      · push_cast at *
        linarith
      · push_cast at *
        linarith
    · next h =>
      have hlast : ((q % 10 : Nat) : ℚ) ≤ 4 := by exact_mod_cast (by omega : q % 10 ≤ 4)
      have hfirst : (0 : ℚ) ≤ (q % 10 : Nat) := Nat.cast_nonneg _
      refine nearest_eq ?_ ?_ hnonneg <;> linarith

/-- A quotient that has grown out of range loses its last digit. -/
theorem keeps_dropDigit {f : ℚ} (hf : 0 ≤ f) (hone : f < 1) {inexact : Bool}
    (hinexact : inexact = true ↔ f ≠ 0) (hlarge : bound ≤ q) (hq : q < 10 * (bound - 1)) :
    Keeps (scaled (q + f) room) (dropDigit q room inexact) := by
  have hbound : (bound : ℚ) ≤ q + f := by
    have : (bound : ℚ) ≤ q := by exact_mod_cast hlarge
    linarith
  unfold dropDigit
  split
  · next hroom =>
    refine keeps_none_of_scaled hroom (hbound.trans ?_)
    exact le_mul_of_one_le_right (by positivity) (one_le_pow₀ (by norm_num))
  · next hroom =>
    have hlt := Nat.not_le.1 hroom
    have hscale : maxScale - (room + 1) + 1 = maxScale - room := by omega
    refine keeps_some (scaled_nonneg (by positivity) room) (Nat.sub_le ..) ?_ ?_
      (.inr (.inr (hscale ▸ not_fits_scaled (Nat.le_of_lt hlt) hbound)))
    · split <;> omega
    · rw [scaled_mul_pred _ hlt, nearest_dropLast hf hone]
      simp only [hinexact]

/-- A quotient that is rounded up to the bound has one digit less. -/
theorem keeps_dropDigit_bound {y : ℚ} (hy : 0 ≤ y) (hbelow : y < bound) (h : bound ≤ nearest y) :
    Keeps (scaled y room) (dropDigit bound room true) := by
  by_cases hroom : maxScale ≤ room
  · rw [dropDigit, if_pos hroom]
    refine keeps_none (h.trans (nearest_mono hy ?_))
    rw [scaled_of_le y hroom]
    exact le_mul_of_one_le_right hy (one_le_pow₀ (by norm_num))
  · have hlt := Nat.not_le.1 hroom
    have hscale : maxScale - (room + 1) + 1 = maxScale - room := by omega
    have hdropped : dropDigit bound room true =
        some (7922816251426433759354395034, maxScale - (room + 1)) := if_neg hroom
    have hfits : ¬ Fits (scaled y room) (maxScale - room) := by
      rw [Fits, scaled_mul y (Nat.le_of_lt hlt)]
      exact Nat.not_lt.2 h
    rw [hdropped]
    refine keeps_some (scaled_nonneg hy room) (Nat.sub_le ..) (by decide) ?_
      (.inr (.inr (hscale ▸ hfits)))
    rw [scaled_mul_pred y hlt, nearest_div_ten hy hbelow h]

end Last

/-! ## Groups of digits -/

section Groups

variable {q r divisor room p : Nat}

theorem headroom_mul_lt (h : 0 < headroom q p) : q * tenPow (headroom q p) < bound := by
  induction p with
  | zero => exact absurd h (Nat.lt_irrefl 0)
  | succ p ih =>
    rw [headroom] at h ⊢
    split
    · next hlt => exact hlt
    · next hlt => exact ih (by rwa [if_neg hlt] at h)

theorem bound_le_of_headroom_lt (h : headroom q p < p) : bound ≤ q * tenPow (headroom q p + 1) := by
  induction p with
  | zero => exact absurd h (Nat.not_lt_zero _)
  | succ p ih =>
    rw [headroom] at h ⊢
    split
    · next hlt =>
      rw [if_pos hlt] at h
      exact absurd h (Nat.lt_irrefl _)
    · next hlt =>
      rcases Nat.lt_or_eq_of_le (headroom_le q p) with hless | heq
      · exact ih hless
      · rw [heq]
        exact Nat.not_lt.1 hlt

/-- The quotient cannot be written out to its units. -/
theorem bound_le_of_nextGroup (h : nextGroup room q r = none) :
    maxScale ≤ room ∧ bound ≤ q * tenPow (room - maxScale) := by
  unfold nextGroup at h
  split at h
  · cases h
  · dsimp only at h
    split at h
    · next hfew =>
      have hroom : 9 ≤ room := Nat.le_trans (by decide : 9 ≤ maxScale) (by omega)
      rw [Nat.min_eq_left hroom] at hfew
      refine ⟨by omega, (bound_le_of_headroom_lt hfew.1).trans (Nat.mul_le_mul_left q ?_)⟩
      exact Nat.pow_le_pow_right (by decide) (by omega)
    · cases h

/-- The quotient is done. -/
theorem done_of_nextGroup (h : nextGroup room q r = some 0) :
    room ≤ maxScale ∧ (r = 0 ∨ room = 0 ∨ bound ≤ q * 10) := by
  unfold nextGroup at h
  split at h
  · next hexact =>
    have hnone : min 9 (room - maxScale) = 0 := Option.some.inj h
    exact ⟨by omega, .inl hexact⟩
  · dsimp only at h
    split at h
    · cases h
    · next hfew =>
      have hzero : headroom q (min 9 room) = 0 := Option.some.inj h
      rw [hzero] at hfew
      refine ⟨by omega, .inr ?_⟩
      rcases Nat.eq_zero_or_pos room with hroom | hroom
      · exact .inl hroom
      · have hlarge : bound ≤ q * tenPow (headroom q (min 9 room) + 1) :=
          bound_le_of_headroom_lt (by omega)
        rw [hzero] at hlarge
        exact .inr hlarge

/-- The quotient gains digits. -/
theorem grows_of_nextGroup (h : nextGroup room q r = some (p + 1)) :
    p + 1 ≤ 9 ∧ (q * tenPow (p + 1) < bound ∨ maxScale + (p + 1) ≤ room) := by
  unfold nextGroup at h
  split at h
  · have hgroup : min 9 (room - maxScale) = p + 1 := Option.some.inj h
    omega
  · dsimp only at h
    split at h
    · cases h
    · have hgroup : headroom q (min 9 room) = p + 1 := Option.some.inj h
      have hle := headroom_le q (min 9 room)
      have hlt := headroom_mul_lt (q := q) (p := min 9 room) (by omega)
      rw [hgroup] at hlt
      exact ⟨by omega, .inl hlt⟩

/-- The digits that a quotient gains come from its remainder. -/
theorem quotient_mul_tenPow (q r : Nat) (hdivisor : 0 < divisor) (p : Nat) :
    ((q : ℚ) + r / divisor) * 10 ^ p =
      ((q * tenPow p + r * tenPow p / divisor : Nat) : ℚ) +
        (r * tenPow p % divisor : Nat) / divisor := by
  have hne : (divisor : ℚ) ≠ 0 := by exact_mod_cast hdivisor.ne'
  have hdigits : (r : ℚ) * 10 ^ p =
      divisor * (r * tenPow p / divisor : Nat) + (r * tenPow p % divisor : Nat) := by
    rw [← cast_tenPow]
    exact_mod_cast (Nat.div_add_mod (r * tenPow p) divisor).symm
  rw [add_mul, div_mul_eq_mul_div, hdigits, Nat.cast_add, Nat.cast_mul, cast_tenPow]
  field_simp
  ring

theorem bound_le_quotient (h : bound ≤ q * tenPow p) :
    (bound : ℚ) ≤ (q + (r : ℚ) / divisor) * 10 ^ p := by
  have hquotient : (bound : ℚ) ≤ q * 10 ^ p := by
    rw [← cast_tenPow]
    exact_mod_cast h
  refine hquotient.trans (mul_le_mul_of_nonneg_right ?_ (by positivity))
  exact le_add_of_nonneg_right (by positivity)

/-- What is kept of a quotient. -/
theorem keeps_divide (hr : r < divisor) (hq : q < bound) :
    Keeps (scaled (q + (r : ℚ) / divisor) room) (divide divisor room q r) := by
  have hdivisor := Nat.lt_of_le_of_lt (Nat.zero_le r) hr
  fun_induction divide divisor room q r with
  | case1 room q r hgroup =>
    obtain ⟨hroom, hlarge⟩ := bound_le_of_nextGroup hgroup
    exact keeps_none_of_scaled hroom (bound_le_quotient hlarge)
  | case2 room q r hgroup rounded hrounded =>
    have hbelow : (q : ℚ) + r / divisor < bound := by
      have hfraction : (r : ℚ) / divisor < 1 :=
        (div_lt_one (by exact_mod_cast hdivisor)).2 (by exact_mod_cast hr)
      calc (q : ℚ) + r / divisor < q + 1 := by linarith
        _ ≤ bound := by exact_mod_cast hq
    rw [hrounded]
    refine keeps_dropDigit_bound (by positivity) hbelow ?_
    rw [nearest_quotient q hr]
    exact hrounded.ge
  | case3 room q r hgroup rounded hrounded =>
    obtain ⟨hroom, hdone⟩ := done_of_nextGroup hgroup
    have hlt : rounded < bound := by
      have hle := roundEven_le q r divisor
      omega
    refine keeps_some (scaled_nonneg (by positivity) room) (Nat.sub_le ..) hlt ?_ ?_
    · rw [scaled_mul _ hroom, nearest_quotient q hr]
    · rcases hdone with rfl | rfl | hlarge
      · refine .inl ?_
        rw [scaled_mul _ hroom, show rounded = q from roundEven_exact q hdivisor]
        simp
      · exact .inr (.inl rfl)
      · rcases Nat.eq_zero_or_pos room with rfl | hpos
        · exact .inr (.inl rfl)
        · have hscale : maxScale - room + 1 = maxScale - (room - 1) := by omega
          rw [hscale, scaled_sub _ hpos]
          exact .inr (.inr (not_fits_scaled (by omega) (bound_le_quotient hlarge)))
  | case4 room q r p hgroup widened hlarge =>
    rcases (grows_of_nextGroup hgroup).2 with hlt | hroom
    · exact absurd hlarge (Nat.not_le.2 hlt)
    · refine keeps_none_of_scaled (by omega)
        (bound_le_quotient (hlarge.trans (Nat.mul_le_mul_left q ?_)))
      exact Nat.pow_le_pow_right (by decide) (by omega)
  | case5 room q r p hgroup widened digits rest hfits hlarge =>
    have hrest : (rest : ℚ) / divisor < 1 := by
      rw [div_lt_one (by exact_mod_cast hdivisor)]
      exact_mod_cast Nat.mod_lt _ hdivisor
    have hinexact : (rest != 0) = true ↔ (rest : ℚ) / divisor ≠ 0 := by
      rw [bne_iff_ne, div_ne_zero_iff, Nat.cast_ne_zero, Nat.cast_ne_zero,
        and_iff_left hdivisor.ne']
    have hdigits : digits < tenPow 9 := by
      refine Nat.lt_of_lt_of_le ((Nat.div_lt_iff_lt_mul hdivisor).2 ?_)
        (Nat.pow_le_pow_right (by decide) (grows_of_nextGroup hgroup).1)
      rw [Nat.mul_comm]
      exact Nat.mul_lt_mul_of_pos_left hr (tenPow_pos _)
    rw [scaled_sub _ (nextGroup_le hgroup), quotient_mul_tenPow q r hdivisor]
    refine keeps_dropDigit (by positivity) hrest hinexact hlarge ?_
    exact Nat.lt_of_lt_of_le (Nat.add_lt_add (Nat.not_le.1 hfits) hdigits) (by decide)
  | case6 room q r p hgroup widened digits rest hfits hsmall ih =>
    rw [scaled_sub _ (nextGroup_le hgroup), quotient_mul_tenPow q r hdivisor]
    exact ih (Nat.mod_lt _ hdivisor) (Nat.not_le.1 hsmall)

end Groups

/-! ## Trailing zeros -/

section Zeros

/-- The parts without some zeros at the end of the fraction. -/
def DropsZeros (parts fewer : Nat × Nat) : Prop :=
  ∃ zeros, parts.1 = fewer.1 * tenPow zeros ∧ parts.2 = fewer.2 + zeros

variable {parts fewer fewest : Nat × Nat}

theorem DropsZeros.refl (parts : Nat × Nat) : DropsZeros parts parts :=
  ⟨0, (Nat.mul_one _).symm, rfl⟩

theorem DropsZeros.trans (h : DropsZeros parts fewer) (h' : DropsZeros fewer fewest) :
    DropsZeros parts fewest := by
  obtain ⟨k, hmantissa, hscale⟩ := h
  obtain ⟨j, hmantissa', hscale'⟩ := h'
  refine ⟨j + k, ?_, ?_⟩
  · rw [hmantissa, hmantissa', tenPow_add, Nat.mul_assoc]
  · rw [hscale, hscale', Nat.add_assoc]

/-- Zeros that are divided out. -/
theorem dropsZeros_div {m k scale : Nat} (hscale : k ≤ scale) (hm : m % tenPow k = 0) :
    DropsZeros (m, scale) (m / tenPow k, scale - k) :=
  ⟨k, (Nat.div_mul_cancel (Nat.dvd_of_mod_eq_zero hm)).symm, (Nat.sub_add_cancel hscale).symm⟩

theorem dropsZeros_dropZeros (k : Nat) (parts : Nat × Nat) :
    DropsZeros parts (dropZeros k parts) := by
  unfold dropZeros
  split
  · next h => exact dropsZeros_div h.1 h.2
  · exact .refl parts

theorem dropsZeros_dropEights (m scale : Nat) : DropsZeros (m, scale) (dropEights m scale) := by
  fun_induction dropEights m scale with
  | case1 m scale h ih => exact (dropsZeros_div (Nat.le_add_left 8 scale) h.2).trans ih
  | case2 m scale h => exact .refl _
  | case3 m scale h => exact .refl _

theorem dropsZeros_tidy (parts : Nat × Nat) : DropsZeros parts (tidy parts) :=
  (dropsZeros_dropEights parts.1 parts.2).trans <| (dropsZeros_dropZeros 4 _).trans <|
    (dropsZeros_dropZeros 2 _).trans (dropsZeros_dropZeros 1 _)

/-- Zeros at the end do not matter. -/
theorem Keeps.of_dropsZeros {x : ℚ} (hkeeps : Keeps x (some parts)) (h : DropsZeros parts fewer) :
    Keeps x (some fewer) := by
  obtain ⟨m, scale⟩ := parts
  obtain ⟨zeros, rfl, rfl⟩ := h
  obtain ⟨hm, hscale, hkept⟩ := hkeeps
  refine ⟨Nat.lt_of_le_of_lt (Nat.le_mul_of_pos_right _ (tenPow_pos zeros)) hm, by omega, ?_⟩
  rw [hkept, Nat.cast_mul, cast_tenPow, pow_add]
  congr 1
  field_simp

theorem Keeps.map {x : ℚ} {kept : Option (Nat × Nat)} (h : Keeps x kept)
    {clean : Nat × Nat → Nat × Nat} (hclean : ∀ parts, DropsZeros parts (clean parts)) :
    Keeps x (kept.map clean) := by
  cases kept with
  | none => exact h
  | some parts => exact h.of_dropsZeros (hclean parts)

end Zeros

/-! ## Quotient and remainder -/

section Division

variable {a b : Decimal}

/-- The magnitude of a quotient, as it is before the first group of digits. -/
theorem abs_div_eq_scaled (a : Decimal) (hb : b.value ≠ 0) :
    |a.value / b.value| =
      scaled ((a.mantissa / b.mantissa : Nat) + ((a.mantissa % b.mantissa : Nat) : ℚ) / b.mantissa)
        (maxScale + b.scale - a.scale) := by
  have hne : (b.mantissa : ℚ) ≠ 0 := by
    exact_mod_cast fun h => hb (value_eq_zero_iff.2 h)
  have hmantissa : ((a.mantissa / b.mantissa : Nat) : ℚ) +
      ((a.mantissa % b.mantissa : Nat) : ℚ) / b.mantissa = a.mantissa / b.mantissa := by
    rw [eq_div_iff hne, add_mul, div_mul_cancel₀ _ hne]
    exact_mod_cast Nat.div_add_mod' a.mantissa b.mantissa
  have hpower :
      (10 : ℚ) ^ (maxScale + b.scale - a.scale) * 10 ^ a.scale = 10 ^ maxScale * 10 ^ b.scale := by
    rw [← pow_add, ← pow_add, Nat.sub_add_cancel (Nat.le_add_right_of_le a.scale_le)]
  rw [hmantissa, abs_div, abs_value, abs_value, scaled, div_div_div_eq, div_mul_eq_mul_div, div_div,
    div_eq_div_iff (by positivity) (by positivity)]
  calc (a.mantissa : ℚ) * 10 ^ b.scale * (b.mantissa * 10 ^ maxScale)
      = a.mantissa * b.mantissa * (10 ^ maxScale * 10 ^ b.scale) := by ring
    _ = a.mantissa * 10 ^ (maxScale + b.scale - a.scale) * (10 ^ a.scale * b.mantissa) := by
      rw [← hpower]
      ring

/-- A quotient is the exact quotient, rounded. -/
theorem value_div? (a b : Decimal) :
    (a.div? b).map value = if b.value = 0 then none else rounded (a.value / b.value) := by
  unfold div?
  by_cases hb : b.value = 0
  · rw [if_pos hb, if_pos (isZero_iff_value.2 hb), Option.map_none]
  · rw [if_neg hb, if_neg (fun h => hb (isZero_iff_value.1 h))]
    split
    · next ha =>
      rw [isZero_iff_value.1 ha, zero_div, ← value_zero, rounded_value, Option.map_some]
    · next ha =>
      have ha' : a.value ≠ 0 := fun h => ha (isZero_iff_value.2 h)
      have hpos : 0 < b.mantissa := Nat.pos_of_ne_zero fun h => hb (value_eq_zero_iff.2 h)
      have hkeeps : Keeps |a.value / b.value|
          (divide b.mantissa (maxScale + b.scale - a.scale) (a.mantissa / b.mantissa)
            (a.mantissa % b.mantissa)) := by
        rw [abs_div_eq_scaled a hb]
        exact keeps_divide (Nat.mod_lt _ hpos)
          (Nat.lt_of_le_of_lt (Nat.div_le_self _ _) a.mantissa_lt)
      have hclean (parts : Nat × Nat) :
          DropsZeros parts (if a.mantissa % b.mantissa = 0 then parts else tidy parts) := by
        split
        · exact .refl parts
        · exact dropsZeros_tidy parts
      rw [← rounded_of_ofResult? (hkeeps.map hclean)
        ((bne_negative_iff ha' hb).trans div_neg_iff.symm), Option.bind_map]
      rfl

/-- What is left of a number by a division that rounds toward zero; it has the
    sign of the number. -/
def remainder (x y : ℚ) : ℚ :=
  let magnitude := |x| - |y| * ⌊|x| / |y|⌋₊
  if x < 0 then -magnitude else magnitude

theorem remainder_of_magnitudes {x y power : ℚ} {m n : Nat} (hpower : 0 < power)
    (hx : |x| = m / power) (hy : |y| = n / power) :
    remainder x y =
      if x < 0 then -(((m % n : Nat) : ℚ) / power) else ((m % n : Nat) : ℚ) / power := by
  have hmagnitude : |x| - |y| * ⌊|x| / |y|⌋₊ = ((m % n : Nat) : ℚ) / power := by
    have hmod : (m : ℚ) - n * (m / n : Nat) = (m % n : Nat) := by
      rw [sub_eq_iff_eq_add]
      exact_mod_cast (Nat.mod_add_div m n).symm
    rw [hx, hy, div_div_div_cancel_right₀ hpower.ne', Nat.floor_div_eq_div, div_mul_eq_mul_div,
      ← sub_div, hmod]
  rw [remainder, hmagnitude]

theorem abs_value_at (d : Decimal) {scale : Nat} (h : d.scale ≤ scale) :
    |d.value| = ((d.mantissa * tenPow (scale - d.scale) : Nat) : ℚ) / 10 ^ scale := by
  obtain ⟨k, rfl⟩ := Nat.exists_eq_add_of_le h
  rw [abs_value, Nat.add_sub_cancel_left, Nat.cast_mul, cast_tenPow, pow_add]
  field_simp

/-- One of two numbers is not changed when they are brought to one scale. -/
theorem mod_lt_bound (a : Decimal) (hb : 0 < b.mantissa) :
    a.mantissa * tenPow (max a.scale b.scale - a.scale) %
      (b.mantissa * tenPow (max a.scale b.scale - b.scale)) < bound := by
  rcases Nat.le_total a.scale b.scale with h | h
  · rw [Nat.max_eq_right h, Nat.sub_self, show tenPow 0 = 1 from rfl, Nat.mul_one]
    exact Nat.lt_trans (Nat.mod_lt _ hb) b.mantissa_lt
  · rw [Nat.max_eq_left h, Nat.sub_self, show tenPow 0 = 1 from rfl, Nat.mul_one]
    exact Nat.lt_of_le_of_lt (Nat.mod_le _ _) a.mantissa_lt

/-- A remainder is exact. -/
theorem value_rem? (a b : Decimal) :
    (a.rem? b).map value = if b.value = 0 then none else some (remainder a.value b.value) := by
  unfold rem?
  by_cases hb : b.value = 0
  · rw [if_pos hb, if_pos (isZero_iff_value.2 hb), Option.map_none]
  · rw [if_neg hb, if_neg (fun h => hb (isZero_iff_value.1 h))]
    split
    · next ha => simp [isZero_iff_value.1 ha, remainder]
    · next ha =>
      have ha' : a.value ≠ 0 := fun h => ha (isZero_iff_value.2 h)
      have hpos : 0 < b.mantissa := Nat.pos_of_ne_zero fun h => hb (value_eq_zero_iff.2 h)
      have hlt := mod_lt_bound a hpos
      have hx := abs_value_at a (Nat.le_max_left a.scale b.scale)
      have hy := abs_value_at b (Nat.le_max_right a.scale b.scale)
      have hpower : (0 : ℚ) < 10 ^ max a.scale b.scale := by positivity
      rw [remainder_of_magnitudes hpower hx hy]
      dsimp only
      generalize a.mantissa * tenPow (max a.scale b.scale - a.scale) = x at *
      generalize b.mantissa * tenPow (max a.scale b.scale - b.scale) = y at *
      split
      · next heq => simp [heq]
      · split
        · next hless =>
          rw [Nat.mod_eq_of_lt hless, ← hx, Option.map_some]
          split
          · next hneg => rw [abs_of_neg hneg, neg_neg]
          · next hnonneg => rw [abs_of_nonneg (not_lt.1 hnonneg)]
        · rw [value_ofResult? hlt (Nat.max_le.2 ⟨a.scale_le, b.scale_le⟩)]
          simp only [negative_iff_value ha']

end Division

end Decimal

/-! ## Arithmetic -/

namespace Arithmetic

open Decimal (rounded)

/-- The result of an operator on the values of its operands: the exact one, rounded. -/
def result? : Arithmetic → ℚ → ℚ → Option ℚ
  | add, x, y => rounded (x + y)
  | subtract, x, y => rounded (x - y)
  | multiply, x, y => rounded (x * y)
  | divide, x, y => if y = 0 then none else rounded (x / y)
  | remainder, x, y => if y = 0 then none else some (Decimal.remainder x y)

/-- What an operator computes depends on nothing but the values of its operands. -/
theorem value_compute? (operation : Arithmetic) (a b : Decimal) :
    (operation.compute? a b).map Decimal.value = operation.result? a.value b.value := by
  cases operation with
  | add => exact Decimal.value_add? a b
  | subtract => exact Decimal.value_sub? a b
  | multiply => exact Decimal.value_mul? a b
  | divide => exact Decimal.value_div? a b
  | remainder => exact Decimal.value_rem? a b

end Arithmetic

end Formula
