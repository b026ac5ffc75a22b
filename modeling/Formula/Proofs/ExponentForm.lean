import Formula.Proofs.Exactness
import Mathlib.Algebra.Order.Field.Power

set_option autoImplicit false

/-! # Numbers with an exponent

A number can be written with an exponent and without one, and where both are read they are read
alike if the digits up to the exponent are a number of their own. Whether the exponent form is read
is decided on its parts and not on its value: the digits are read for themselves, and then the point
must have the room to move, even over digits that are zeros. -/

namespace Formula

namespace Decimal

/-! ## Digits that are cut off -/

/-- Digits behind the point are taken as long as there are no more than 28 and the mantissa stays in
    range; the next one rounds. -/
theorem readDigits_fraction_cut (front tail : List Char) {r : Reading} {c : Char}
    (hfront : ∀ d ∈ front, d.isDigit = true) (hc : c.isDigit = true) (hpoint : r.point = true)
    (hscale : r.scale < maxScale) (hplaces : r.scale + front.length ≤ maxScale)
    (hbound : Nat.ofDigitChars 10 front r.mantissa < bound)
    (hcut : r.scale + front.length = maxScale ∨
      bound ≤ Nat.ofDigitChars 10 (front ++ [c]) r.mantissa) :
    readDigits r (front ++ c :: tail) =
      roundOff (Nat.ofDigitChars 10 front r.mantissa) (r.scale + front.length) c tail := by
  induction front generalizing r with
  | nil =>
    -- the first digit is one too many
    have hlarge : bound ≤ (r.push c).mantissa := by
      rw [push_mantissa]
      rcases hcut with hfull | hlarge
      · rw [List.length_nil, Nat.add_zero] at hfull
        exact absurd hfull (Nat.ne_of_lt hscale)
      · simpa [Nat.ofDigitChars_cons] using hlarge
    rw [List.nil_append, readDigits, if_pos hc]
    dsimp only
    rw [if_pos hlarge, if_pos hpoint]
    simp
  | cons d front ih =>
    have hd := hfront d (List.mem_cons_self ..)
    have hpush : (r.push d).point = true := hpoint
    have hpushScale : (r.push d).scale = r.scale + 1 := by simp [Reading.push, hpoint]
    rw [List.cons_append, Nat.ofDigitChars_cons, ← push_mantissa] at hcut
    rw [Nat.ofDigitChars_cons, ← push_mantissa] at hbound ⊢
    rw [List.length_cons] at hplaces hcut ⊢
    have hnext := Nat.lt_of_le_of_lt (le_ofDigitChars front _) hbound
    rw [List.cons_append, readDigits_digit hd hnext, hpush, hpushScale]
    by_cases hfull : r.scale + 1 = maxScale
    · -- the 28th digit, with another one behind it
      obtain rfl : front = [] := List.length_eq_zero_iff.1 (by omega)
      have hline : (c == '_') = false := by
        rw [beq_eq_false_iff_ne]
        rintro rfl
        cases hc
      rw [if_pos (by simpa using hfull), roundFull]
      simp [hline]
    · rw [if_neg (by simpa using hfull)]
      have hread := ih (r := { r.push d with
        wide := r.wide || decide (wideFrom ≤ (r.push d).mantissa) })
        (fun c hc => hfront c (List.mem_cons_of_mem d hc)) hpoint
        (by simp only [hpushScale]; omega) (by simp only [hpushScale]; omega) hbound
        (by simp only [hpushScale]; rwa [Nat.add_right_comm, Nat.add_assoc])
      rw [hread]
      simp only [hpushScale]
      congr 1
      omega

/-- A zero and the digits behind it are cut off without rounding. -/
theorem roundOff_zero {c : Char} (hc : c.isDigit = true) (hzero : digitValue c = 0)
    (mantissa scale : Nat) {tail : List Char} (htail : ∀ d ∈ tail, d.isDigit = true) :
    roundOff mantissa scale c tail = some (mantissa, scale) := by
  have hall : tail.all (fun t => t.isDigit || t == '_') = true :=
    List.all_eq_true.2 fun d hd => by simp [htail d hd]
  unfold roundOff
  rw [hc, hall, hzero]
  rfl

/-! ## Runs of digits as numbers -/

theorem digitValue_lt {c : Char} (hc : c.isDigit = true) : digitValue c < 10 := by
  simp only [Char.isDigit, Bool.and_eq_true, decide_eq_true_eq, UInt32.le_iff_toNat_le] at hc
  have hle : c.toNat ≤ 57 := hc.2
  have hzero : '0'.toNat = 48 := rfl
  rw [digitValue, hzero]
  omega

/-- A run of digits is less than the power of ten that has one digit more. -/
theorem ofDigitChars_lt {digits : List Char} (h : ∀ c ∈ digits, c.isDigit = true) :
    Nat.ofDigitChars 10 digits 0 < 10 ^ digits.length := by
  induction digits with
  | nil => simp
  | cons c digits ih =>
    have hrest := ih fun d hd => h d (List.mem_cons_of_mem c hd)
    have hc : c.toNat - '0'.toNat < 10 := digitValue_lt (h c (List.mem_cons_self ..))
    rw [Nat.ofDigitChars_cons, Nat.ofDigitChars_eq_ofDigitChars_zero, Nat.mul_zero, Nat.zero_add,
      List.length_cons, Nat.pow_succ]
    have hdigit := Nat.mul_le_mul_left (10 ^ digits.length) (Nat.le_of_lt_succ hc)
    omega

/-- The first digit of a run that spells zero is zero. -/
theorem digitValue_eq_zero {c : Char} {digits : List Char}
    (h : Nat.ofDigitChars 10 (c :: digits) 0 = 0) : digitValue c = 0 := by
  rw [Nat.ofDigitChars_cons, Nat.ofDigitChars_eq_ofDigitChars_zero, Nat.mul_zero, Nat.zero_add,
    Nat.add_eq_zero_iff, Nat.mul_eq_zero] at h
  exact h.1.resolve_left (by positivity)

end Decimal

namespace DecimalLiteral

variable (l : DecimalLiteral)

/-! ## The digits up to the exponent -/

/-- The number that the digits in front of the point and `k` digits behind it spell. -/
def leading (k : Nat) : Nat := Nat.ofDigitChars 10 (l.whole ++ l.fraction.take k) 0

theorem leading_eq (k : Nat) :
    l.leading k = Nat.ofDigitChars 10 (l.fraction.take k) (Nat.ofDigitChars 10 l.whole 0) := by
  rw [leading, Nat.ofDigitChars_append]

/-- How many digits behind the point a decimal has room for. -/
def places : Nat :=
  Nat.findGreatest (fun k => l.leading k < Decimal.bound) (min Decimal.maxScale l.fraction.length)

theorem places_le : l.places ≤ Decimal.maxScale ∧ l.places ≤ l.fraction.length :=
  Nat.le_min.1 (Nat.findGreatest_le _)

/-- One digit more would be too many. -/
theorem bound_le_leading (hscale : l.places < Decimal.maxScale)
    (hlength : l.places < l.fraction.length) : Decimal.bound ≤ l.leading (l.places + 1) :=
  Nat.not_lt.1 (Nat.findGreatest_is_greatest (P := fun k => l.leading k < Decimal.bound)
    (Nat.lt_succ_self _) (Nat.le_min.2 ⟨hscale, hlength⟩))

/-- The digits are the first ones and those behind them. -/
theorem coefficient_eq (k : Nat) :
    l.coefficient = 10 ^ (l.fraction.length - k) * l.leading k +
      Nat.ofDigitChars 10 (l.fraction.drop k) 0 := by
  have hdigits : l.whole ++ l.fraction = (l.whole ++ l.fraction.take k) ++ l.fraction.drop k := by
    rw [List.append_assoc, List.take_append_drop]
  rw [coefficient, hdigits, Nat.ofDigitChars_append, Nat.ofDigitChars_eq_ofDigitChars_zero,
    List.length_drop, leading]

theorem mul_leading_le (k : Nat) :
    10 ^ (l.fraction.length - k) * l.leading k ≤ l.coefficient := by
  rw [l.coefficient_eq k]
  exact Nat.le_add_right ..

section

variable {l} {d : Decimal} (hvalue : d.value = l.baseValue)

include hvalue

/-- The digits of a number that is a decimal are the digits of that decimal and zeros. -/
theorem mantissa_mul_eq :
    d.mantissa * 10 ^ l.fraction.length = l.coefficient * 10 ^ d.scale := by
  have habs : (d.mantissa : ℚ) / 10 ^ d.scale = l.coefficient / 10 ^ l.fraction.length := by
    rw [← Decimal.abs_value, hvalue, baseValue, abs_of_nonneg (by positivity)]
  rw [div_eq_div_iff (by positivity) (by positivity)] at habs
  exact_mod_cast habs

theorem leading_zero_lt : l.leading 0 < Decimal.bound := by
  refine Nat.lt_of_le_of_lt ?_ d.mantissa_lt
  have hdigits := mantissa_mul_eq hvalue
  have hle := Nat.mul_le_mul_right (10 ^ d.scale) (l.mul_leading_le 0)
  rw [← hdigits, Nat.sub_zero, Nat.mul_comm (10 ^ _), Nat.mul_right_comm] at hle
  exact Nat.le_trans (Nat.le_mul_of_pos_right _ (by positivity))
    (Nat.le_of_mul_le_mul_right hle (by positivity))

theorem leading_places_lt : l.leading l.places < Decimal.bound :=
  Nat.findGreatest_spec (P := fun k => l.leading k < Decimal.bound) (Nat.zero_le _)
    (leading_zero_lt hvalue)

/-- The decimal has no more digits behind the point than there is room for. -/
theorem scale_le_places (hlength : l.places < l.fraction.length) : d.scale ≤ l.places := by
  refine Nat.le_of_not_lt fun hlt =>
    Nat.lt_irrefl Decimal.bound (Nat.lt_of_le_of_lt ?_ d.mantissa_lt)
  have hnext := l.bound_le_leading (Nat.lt_of_lt_of_le hlt d.scale_le) hlength
  have hdigits := mantissa_mul_eq hvalue
  have hle := l.mul_leading_le (l.places + 1)
  obtain ⟨j, hj⟩ := Nat.exists_eq_add_of_lt hlt
  obtain ⟨i, hi⟩ := Nat.exists_eq_add_of_lt hlength
  have hrest : l.fraction.length - (l.places + 1) = i := by omega
  have hpower : 10 ^ i * 10 ^ d.scale = 10 ^ j * 10 ^ l.fraction.length := by
    rw [← Nat.pow_add, ← Nat.pow_add]
    congr 1
    omega
  rw [hrest] at hle
  have hall : Decimal.bound * 10 ^ l.fraction.length ≤ d.mantissa * 10 ^ l.fraction.length := by
    calc Decimal.bound * 10 ^ l.fraction.length
        ≤ Decimal.bound * (10 ^ j * 10 ^ l.fraction.length) :=
          Nat.mul_le_mul_left _ (Nat.le_mul_of_pos_left _ (by positivity))
      _ = 10 ^ i * Decimal.bound * 10 ^ d.scale := by
        rw [← hpower, Nat.mul_right_comm, Nat.mul_comm]
      _ ≤ l.coefficient * 10 ^ d.scale :=
          Nat.mul_le_mul_right _ (Nat.le_trans (Nat.mul_le_mul_left _ hnext) hle)
      _ = d.mantissa * 10 ^ l.fraction.length := hdigits.symm
  exact Nat.le_of_mul_le_mul_right hall (by positivity)

/-- The digits for which there is no room are zeros. -/
theorem ofDigitChars_drop_places : Nat.ofDigitChars 10 (l.fraction.drop l.places) 0 = 0 := by
  rcases Nat.lt_or_eq_of_le l.places_le.2 with hlength | heq
  swap
  · rw [heq, List.drop_length, Nat.ofDigitChars_nil]
  have hlt :
      Nat.ofDigitChars 10 (l.fraction.drop l.places) 0 < 10 ^ (l.fraction.drop l.places).length :=
    Decimal.ofDigitChars_lt fun c hc => l.isDigit_fraction c (List.mem_of_mem_drop hc)
  rw [List.length_drop] at hlt
  refine Nat.eq_zero_of_dvd_of_lt ?_ hlt
  have hscale := scale_le_places hvalue hlength
  have hdvd : 10 ^ (l.fraction.length - l.places) ∣ l.coefficient := by
    have hdigits := mantissa_mul_eq hvalue
    have hsplit : l.fraction.length = l.fraction.length - d.scale + d.scale := by omega
    rw [hsplit, Nat.pow_add, ← Nat.mul_assoc] at hdigits
    rw [← Nat.eq_of_mul_eq_mul_right (by positivity) hdigits]
    exact Nat.dvd_mul_left_of_dvd (Nat.pow_dvd_pow 10 (by omega)) _
  rw [l.coefficient_eq l.places] at hdvd
  exact (Nat.dvd_add_right (Nat.dvd_mul_right ..)).1 hdvd

theorem leading_places_div : (l.leading l.places : ℚ) / 10 ^ l.places = l.baseValue := by
  have hdigits := l.coefficient_eq l.places
  rw [ofDigitChars_drop_places hvalue, Nat.add_zero] at hdigits
  have hlength : l.fraction.length = l.fraction.length - l.places + l.places :=
    (Nat.sub_add_cancel l.places_le.2).symm
  rw [baseValue, hdigits, hlength, pow_add, ← hlength, Nat.cast_mul, Nat.cast_pow, Nat.cast_ofNat]
  field_simp

/-- Where there is no room for all digits, those are read for which there is. -/
theorem readDigits_base_cut (hlt : l.places < l.fraction.length) :
    Decimal.readDigits {} l.base = some (l.leading l.places, l.places) := by
  obtain ⟨hscale, hlength⟩ := l.places_le
  obtain ⟨c, tail, hdrop⟩ :=
    List.exists_cons_of_ne_nil (List.drop_eq_nil_iff.not.2 (Nat.not_le.2 hlt))
  obtain ⟨hc, htail⟩ : c.isDigit = true ∧ ∀ d ∈ tail, d.isDigit = true :=
    List.forall_mem_cons.1 fun d hd => l.isDigit_fraction d (List.mem_of_mem_drop (hdrop ▸ hd))
  have hzero : Decimal.digitValue c = 0 :=
    Decimal.digitValue_eq_zero (hdrop ▸ ofDigitChars_drop_places hvalue)
  have htake : (l.fraction.take l.places).length = l.places := List.length_take_of_le hlength
  have hnext : l.fraction.take (l.places + 1) = l.fraction.take l.places ++ [c] := by
    rw [List.take_add, hdrop]
    rfl
  -- either all 28 places are taken or the next digit is out of range
  have hfull : l.places = Decimal.maxScale ∨ Decimal.bound ≤ l.leading (l.places + 1) :=
    (Nat.lt_or_eq_of_le hscale).symm.imp_right fun hroom => l.bound_le_leading hroom hlt
  obtain ⟨wide, hread⟩ :=
    l.readDigits_base_fraction (List.ne_nil_of_length_pos (Nat.zero_lt_of_lt hlt))
    (by simpa [leading] using leading_zero_lt hvalue)
  have hrange := leading_places_lt hvalue
  rw [leading_eq] at hrange
  rw [leading_eq, hnext] at hfull
  have hcut := Decimal.readDigits_fraction_cut (l.fraction.take l.places) tail
    (r := ⟨Nat.ofDigitChars 10 l.whole 0, 0, wide, true, true⟩)
    (fun d hd => l.isDigit_fraction d (List.mem_of_mem_take hd)) hc rfl (Nat.zero_lt_succ 27)
    (by simpa [htake] using hscale) hrange (by simpa [htake] using hfull)
  rw [← hdrop, List.take_append_drop, htake, Nat.zero_add,
    Decimal.roundOff_zero hc hzero _ _ htail] at hcut
  rw [hread, hcut, leading_eq]

/-- Of digits that denote a decimal, those are read for which there is room, and nothing is lost. -/
theorem readDigits_base_of_value :
    Decimal.readDigits {} l.base = some (l.leading l.places, l.places) := by
  rcases Nat.lt_or_eq_of_le l.places_le.2 with hlt | heq
  · exact readDigits_base_cut hvalue hlt
  · have hrange := leading_places_lt hvalue
    have hcoefficient : l.leading l.places = l.coefficient := by
      rw [leading, heq, List.take_length, coefficient]
    rw [hcoefficient] at hrange ⊢
    rw [l.readDigits_base hrange (heq ▸ l.places_le.1), heq]

end

/-! ## Literals with an exponent -/

/-- The digits up to the exponent denote a decimal, and there is room for moving its point: 28
    places to the right, and to the left as many as its digits behind the point leave over. -/
structure HasRoom (x : Exponent) : Prop where
  base : ∃ d : Decimal, d.value = l.baseValue
  exponent : x.magnitude ≤ Decimal.maxScale
  left : x.sign = .minus → l.places + x.magnitude ≤ Decimal.maxScale

/-- A literal with an exponent is read to its value exactly if there is room, provided
    that the value is in range. -/
theorem readChars?_eq_some_iff_hasRoom {x : Exponent} (hexponent : l.exponent = some x)
    (hrange : l.value < Decimal.bound) :
    (∃ d, Decimal.readChars? l.text = some d ∧ d.value = l.value) ↔ l.HasRoom x := by
  rw [l.readChars?_unsigned]
  constructor
  · rintro ⟨d, hread, hvalue⟩
    obtain ⟨base, hbase, hshift⟩ := Option.bind_eq_some_iff.1 hread
    have hpower : (10 : ℚ) ^ l.exponentValue ≠ 0 := by positivity
    have hbaseValue : base.value = l.baseValue := by
      rw [l.value_of_shift? hshift, value, mul_left_inj' hpower] at hvalue
      exact hvalue
    have hdigits := (l.readBase?_eq_some hbase).1
    rw [readDigits_base_of_value hbaseValue] at hdigits
    obtain ⟨-, hscale⟩ := Prod.mk.inj (Option.some.inj hdigits)
    obtain ⟨hmagnitude, hminus, -⟩ := (l.exists_shift?_iff hexponent).1 ⟨d, hshift⟩
    exact ⟨⟨base, hbaseValue⟩, hmagnitude, fun h => hscale ▸ hminus h⟩
  · rintro ⟨⟨found, hfound⟩, hmagnitude, hleft⟩
    have hdigits := readDigits_base_of_value hfound
    obtain ⟨base, hbase⟩ : ∃ base, l.readBase? .absent = some base := by
      rw [readBase?, hdigits]
      exact Decimal.exists_ofParts? (leading_places_lt hfound) l.places_le.1
    obtain ⟨hread, hsigned⟩ := l.readBase?_eq_some hbase
    obtain ⟨hmantissa, hscale⟩ := Prod.mk.inj (Option.some.inj (hread.symm.trans hdigits))
    rw [hmantissa, hscale, leading_places_div hfound] at hsigned
    have hvalue : base.value = l.baseValue := hsigned
    have hnonneg : 0 ≤ l.baseValue := by
      rw [baseValue]
      positivity
    obtain ⟨d, hshift⟩ := (l.exists_shift?_iff (d := base) hexponent).2
      ⟨hmagnitude, fun h => hscale ▸ hleft h, fun h => by
        rw [hvalue, abs_of_nonneg hnonneg]
        rw [value, exponentValue, hexponent] at hrange
        simpa [Exponent.value_of_ne_minus h] using hrange⟩
    refine ⟨d, Option.bind_eq_some_iff.2 ⟨base, hbase, hshift⟩, ?_⟩
    rw [l.value_of_shift? hshift, hvalue]
    rfl

/-! ## Literals without an exponent -/

section

variable {l}

theorem value_eq_baseValue (h : l.exponent = none) : l.value = l.baseValue := by
  simp [value, exponentValue, h]

/-- A literal without an exponent whose digits all fit is in range. -/
theorem value_lt_bound (h : l.exponent = none) (hrange : l.coefficient < Decimal.bound) :
    l.value < Decimal.bound := by
  have hpower : (1 : ℚ) ≤ 10 ^ l.fraction.length := one_le_pow₀ (by norm_num)
  rw [value_eq_baseValue h, baseValue]
  calc (l.coefficient : ℚ) / 10 ^ l.fraction.length
      ≤ l.coefficient := div_le_self (Nat.cast_nonneg _) hpower
    _ < Decimal.bound := by exact_mod_cast hrange

/-- A literal without an exponent whose digits all fit is read. -/
theorem exists_readChars? (h : l.exponent = none) (hrange : l.coefficient < Decimal.bound)
    (hplaces : l.fraction.length ≤ Decimal.maxScale) : ∃ d, Decimal.readChars? l.text = some d := by
  rw [l.readChars?_unsigned, readBase?, l.readDigits_base hrange hplaces, l.shift?_of_none h,
    Option.bind_fun_some]
  exact Decimal.exists_ofParts? hrange hplaces

end

end DecimalLiteral

/-! ## Parsing -/

/-- A literal with an exponent is parsed to the number that is parsed of a literal of the same value
    without one exactly if there is room for moving its point. -/
theorem parse_exponent_iff_hasRoom (l plain : DecimalLiteral) (x : Exponent)
    (hexponent : l.exponent = some x) (hplain : plain.exponent = none)
    (hrange : plain.coefficient < 2 ^ 96) (hplaces : plain.fraction.length ≤ 28)
    (hvalue : l.value = plain.value) :
    (∃ d d' : Decimal, parse (String.ofList l.text) = .ok (.constant (.number d)) ∧
        parse (String.ofList plain.text) = .ok (.constant (.number d')) ∧ d.same d' = true) ↔
      l.HasRoom x := by
  have hlt : l.value < Decimal.bound := hvalue ▸ plain.value_lt_bound hplain hrange
  obtain ⟨d', hread'⟩ := DecimalLiteral.exists_readChars? hplain hrange hplaces
  have hvalue' := plain.value_of_readChars? hrange hplaces hread'
  have hparse' : parse (String.ofList plain.text) = .ok (.constant (.number d')) := by
    rw [plain.parse_text_alone, hread']
  have hparse := l.parse_text_alone
  rw [← l.readChars?_eq_some_iff_hasRoom hexponent hlt]
  constructor
  · rintro ⟨d, e, hd, he, hsame⟩
    obtain rfl : d' = e := by simpa using hparse'.symm.trans he
    rw [hparse] at hd
    split at hd
    · next c hread =>
      obtain rfl : c = d := by simpa using hd
      exact ⟨c, hread, (Decimal.same_iff_value_eq.1 hsame).trans (hvalue'.trans hvalue.symm)⟩
    · cases hd
  · rintro ⟨d, hread, hd⟩
    rw [hread] at hparse
    exact ⟨d, d', hparse, hparse',
      Decimal.same_iff_value_eq.2 (hd.trans (hvalue.trans hvalue'.symm))⟩

namespace DecimalLiteral

/-- `0.0125`. -/
def eightieth : DecimalLiteral where
  whole := ['0']
  fraction := ['0', '1', '2', '5']
  exponent := none
  isDigit_whole := List.all_eq_true.1 rfl
  isDigit_fraction := List.all_eq_true.1 rfl
  digits_ne_nil := by simp

/-- `10e-29`. -/
def tenShifted : DecimalLiteral where
  whole := ['1', '0']
  fraction := []
  exponent :=
    some ⟨'e', .minus, ['2', '9'], isExponentMark_e, List.all_eq_true.1 rfl, List.cons_ne_nil _ _⟩
  isDigit_whole := List.all_eq_true.1 rfl
  isDigit_fraction := List.all_eq_true.1 rfl
  digits_ne_nil := List.cons_ne_nil _ _

/-- `0.0000000000000000000000000001`, the least positive number. -/
def least : DecimalLiteral where
  whole := ['0']
  fraction := List.replicate 27 '0' ++ ['1']
  exponent := none
  isDigit_whole := List.all_eq_true.1 rfl
  isDigit_fraction := List.all_eq_true.1 rfl
  digits_ne_nil := by simp

end DecimalLiteral

theorem parse_exponent_iff_hasRoom_eightieth :
    ∃ d d' : Decimal, parse "12.50e-3" = .ok (.constant (.number d)) ∧
      parse "0.0125" = .ok (.constant (.number d')) ∧ d.same d' = true := by
  have hbase : DecimalLiteral.thousandths.baseValue = 1250 / 10 ^ 2 := rfl
  have hvalue : DecimalLiteral.thousandths.value = DecimalLiteral.eightieth.value := by
    have hexponent : DecimalLiteral.thousandths.exponentValue = -3 := rfl
    have hplain : DecimalLiteral.eightieth.baseValue = 125 / 10 ^ 4 := rfl
    rw [DecimalLiteral.value_eq_baseValue (l := .eightieth) rfl, DecimalLiteral.value, hbase,
      hexponent, hplain]
    norm_num
  have hroom : DecimalLiteral.thousandths.HasRoom
      ⟨'e', .minus, ['3'], isExponentMark_e, List.all_eq_true.1 rfl, by simp⟩ := by
    refine ⟨⟨⟨false, 1250, 2, by decide, by decide⟩, ?_⟩, by decide, fun _ => ?_⟩
    · rw [Decimal.value_of_unsigned rfl, hbase]
      norm_num
    · exact Nat.le_trans (Nat.add_le_add_right DecimalLiteral.thousandths.places_le.2 _) (by decide)
  exact (parse_exponent_iff_hasRoom .thousandths .eightieth _ rfl rfl (by decide)
    (by decide) hvalue).2 hroom

/-- A number that is refused with an exponent and read without one. The point would move by 29
    places, of which a zero takes one back. -/
theorem parse_tenShifted_refused :
    DecimalLiteral.least.coefficient < 2 ^ 96 ∧ DecimalLiteral.least.fraction.length ≤ 28 ∧
      DecimalLiteral.tenShifted.value = DecimalLiteral.least.value ∧
      parse (String.ofList DecimalLiteral.tenShifted.text) =
        .error ⟨0, .numberOutOfRange "10e-29"⟩ ∧
      parse (String.ofList DecimalLiteral.least.text) =
        .ok (.constant (.number ⟨false, 1, 28, by decide, by decide⟩)) := by
  refine ⟨by decide, by decide, ?_, by decide +kernel, by decide +kernel⟩
  have hbase : DecimalLiteral.tenShifted.baseValue = 10 / 10 ^ 0 := rfl
  have hexponent : DecimalLiteral.tenShifted.exponentValue = -29 := rfl
  have hplain : DecimalLiteral.least.baseValue = 1 / 10 ^ 28 := rfl
  rw [DecimalLiteral.value_eq_baseValue (l := .least) rfl, DecimalLiteral.value, hbase,
    hexponent, hplain]
  norm_num

-- Where there is no room for a digit it is rounded before the point moves: `5e-28` is read as
-- `1e-27`.
example : parse "0.00000000000000000000000000005e1" =
    .ok (.constant (.number ⟨false, 1, 27, by decide, by decide⟩)) := by
  decide +kernel

end Formula
