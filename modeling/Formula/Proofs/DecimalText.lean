import Formula.Decimal.Text
import Mathlib.Data.List.TakeWhile

set_option autoImplicit false

/-! # Reading what is written

A number is written as a minus, if it has one, and its digits, and is read back with its
mantissa and its scale: the digits never exceed the bound on the way, and a 28th
fraction digit is the last one. -/

namespace Formula

theorem eq_of_isExponentMark {c : Char} (h : Decimal.isExponentMark c = true) :
    c = 'e' ∨ c = 'E' := by
  simpa [Decimal.isExponentMark] using h

theorem isExponentMark_of_isDigit {c : Char} (h : c.isDigit = true) :
    Decimal.isExponentMark c = false := by
  refine Bool.eq_false_iff.2 fun hmark => ?_
  rcases eq_of_isExponentMark hmark with rfl | rfl
  · exact absurd h (by decide)
  · exact absurd h (by decide)

namespace Decimal

/-! ## Digits -/

theorem le_ofDigitChars (digits : List Char) (n : Nat) : n ≤ Nat.ofDigitChars 10 digits n := by
  induction digits generalizing n with
  | nil => simp
  | cons c digits ih =>
    rw [Nat.ofDigitChars_cons]
    have hrest := ih (10 * n + (c.toNat - '0'.toNat))
    omega

theorem push_mantissa (r : Reading) (c : Char) :
    (r.push c).mantissa = 10 * r.mantissa + (c.toNat - '0'.toNat) := by
  simp only [Reading.push, digitValue]
  omega

/-- A digit is taken if the mantissa stays in range. -/
theorem readDigits_digit {r : Reading} {c : Char} {rest : List Char} (hc : c.isDigit = true)
    (hbound : (r.push c).mantissa < bound) :
    readDigits r (c :: rest) =
      if ((r.push c).point && (r.push c).scale == maxScale) = true then
        roundFull r.wide (r.push c).mantissa (r.push c).scale rest
      else
        readDigits
          { r.push c with wide := r.wide || decide (wideFrom ≤ (r.push c).mantissa) } rest := by
  rw [readDigits, if_pos hc]
  exact if_neg (Nat.not_le.2 hbound)

/-- Digits in front of the point are taken as long as the mantissa stays in range. -/
theorem readDigits_whole (digits : List Char) {r : Reading} {rest : List Char}
    (hdigits : ∀ c ∈ digits, c.isDigit = true) (hpoint : r.point = false)
    (hbound : Nat.ofDigitChars 10 digits r.mantissa < bound) :
    ∃ wide, readDigits r (digits ++ rest) =
      readDigits ⟨Nat.ofDigitChars 10 digits r.mantissa, r.scale, wide, false,
        r.digit || !digits.isEmpty⟩ rest := by
  induction digits generalizing r with
  | nil =>
    obtain ⟨mantissa, scale, wide, point, digit⟩ := r
    subst hpoint
    exact ⟨wide, by simp⟩
  | cons c digits ih =>
    rw [Nat.ofDigitChars_cons, ← push_mantissa] at hbound ⊢
    have hpush : (r.push c).point = false := hpoint
    have hnext := Nat.lt_of_le_of_lt (le_ofDigitChars digits _) hbound
    rw [List.cons_append, readDigits_digit (hdigits c (List.mem_cons_self ..)) hnext, hpush,
      Bool.false_and, if_neg Bool.false_ne_true]
    have hrest : ∀ d ∈ digits, d.isDigit = true := fun d hd => hdigits d (List.mem_cons_of_mem c hd)
    obtain ⟨wide, hwide⟩ := ih (r := { r.push c with
      wide := r.wide || decide (wideFrom ≤ (r.push c).mantissa) }) hrest hpoint hbound
    refine ⟨wide, ?_⟩
    rw [hwide]
    simp [Reading.push, hpoint]

/-- Digits behind the point are taken as long as there are no more than 28. -/
theorem readDigits_fraction (digits : List Char) {r : Reading}
    (hdigits : ∀ c ∈ digits, c.isDigit = true) (hpoint : r.point = true) (hdigit : r.digit = true)
    (hbound : Nat.ofDigitChars 10 digits r.mantissa < bound)
    (hscale : r.scale + digits.length ≤ maxScale) :
    readDigits r digits =
      some (Nat.ofDigitChars 10 digits r.mantissa, r.scale + digits.length) := by
  induction digits generalizing r with
  | nil => simp [readDigits, hdigit]
  | cons c digits ih =>
    rw [Nat.ofDigitChars_cons, ← push_mantissa] at hbound ⊢
    have hpush : (r.push c).point = true := hpoint
    have hpushScale : (r.push c).scale = r.scale + 1 := by simp [Reading.push, hpoint]
    have hnext := Nat.lt_of_le_of_lt (le_ofDigitChars digits _) hbound
    rw [List.length_cons] at hscale ⊢
    rw [readDigits_digit (hdigits c (List.mem_cons_self ..)) hnext, hpush, hpushScale]
    by_cases hfull : r.scale + 1 = maxScale
    · -- the 28th digit, with nothing behind it
      obtain rfl : digits = [] := List.length_eq_zero_iff.1 (by omega)
      simp [hfull, roundFull]
    · have hrest : ∀ d ∈ digits, d.isDigit = true :=
        fun d hd => hdigits d (List.mem_cons_of_mem c hd)
      rw [if_neg (by simpa using hfull)]
      have hread := ih (r := { r.push c with
        wide := r.wide || decide (wideFrom ≤ (r.push c).mantissa) }) hrest hpoint rfl hbound
        (by simp only [hpushScale]; omega)
      rw [hread]
      simp only [hpushScale]
      congr 2
      omega

/-! ## The parts of a written number -/

/-- The digits in front of the point. -/
def whole (d : Decimal) : List Char := d.digits.take (d.digits.length - d.scale)

/-- The digits behind the point. -/
def fraction (d : Decimal) : List Char := d.digits.drop (d.digits.length - d.scale)

/-- The point and the digits behind it, if there are any. -/
def pointed (d : Decimal) : List Char := if d.scale = 0 then [] else '.' :: d.fraction

theorem toList_write_eq (d : Decimal) :
    d.write.toList = (if d.negative then ['-'] else []) ++ (d.whole ++ d.pointed) := by
  simp [write, whole, pointed, fraction]

theorem toList_write {d : Decimal} (h : d.negative = false) :
    d.write.toList = d.whole ++ d.pointed := by
  rw [toList_write_eq, h]
  rfl

theorem lt_length_digits (d : Decimal) : d.scale < d.digits.length := by
  simp only [digits, List.length_append, List.length_replicate]
  omega

theorem isDigit_of_mem_digits {d : Decimal} : ∀ c ∈ d.digits, c.isDigit = true := by
  intro c hc
  simp only [digits, List.mem_append, List.mem_replicate] at hc
  rcases hc with ⟨-, rfl⟩ | hc
  · rfl
  · exact Nat.isDigit_of_mem_toDigits (by decide) (by decide) hc

theorem isDigit_of_mem_whole {d : Decimal} : ∀ c ∈ d.whole, c.isDigit = true :=
  fun c hc => isDigit_of_mem_digits c (List.mem_of_mem_take hc)

theorem isDigit_of_mem_fraction {d : Decimal} : ∀ c ∈ d.fraction, c.isDigit = true :=
  fun c hc => isDigit_of_mem_digits c (List.mem_of_mem_drop hc)

theorem whole_ne_nil (d : Decimal) : d.whole ≠ [] := by
  intro h
  have hlength := congrArg List.length h
  have hdigits := d.lt_length_digits
  simp only [whole, List.length_take, List.length_nil] at hlength
  omega

theorem length_fraction (d : Decimal) : d.fraction.length = d.scale := by
  have hdigits := d.lt_length_digits
  rw [fraction, List.length_drop]
  omega

/-- All digits together are those of the mantissa. -/
theorem ofDigitChars_fraction (d : Decimal) :
    Nat.ofDigitChars 10 d.fraction (Nat.ofDigitChars 10 d.whole 0) = d.mantissa := by
  rw [← Nat.ofDigitChars_append, whole, fraction, List.take_append_drop, digits,
    Nat.ofDigitChars_append, Nat.ofDigitChars_replicate_zero, Nat.mul_zero,
    Nat.ofDigitChars_ten_toDigits]

/-! ## Reading the parts -/

theorem readDigits_write (d : Decimal) :
    readDigits {} (d.whole ++ d.pointed) = some (d.mantissa, d.scale) := by
  have hbound : Nat.ofDigitChars 10 d.whole 0 < bound := by
    -- the digits in front of the point are no more than all of them
    refine Nat.lt_of_le_of_lt (le_ofDigitChars d.fraction _) ?_
    rw [ofDigitChars_fraction]
    exact d.mantissa_lt
  have hwhole : (!d.whole.isEmpty) = true := by simpa using d.whole_ne_nil
  obtain ⟨wide, hread⟩ : ∃ wide, readDigits {} (d.whole ++ d.pointed) =
      readDigits ⟨Nat.ofDigitChars 10 d.whole 0, 0, wide, false, false || !d.whole.isEmpty⟩
        d.pointed :=
    readDigits_whole d.whole isDigit_of_mem_whole rfl hbound
  rw [hread, hwhole, Bool.or_true, pointed]
  split
  · next hscale =>
    have hfraction : d.fraction = [] := List.length_eq_zero_iff.1 (by rw [length_fraction, hscale])
    have hmantissa := d.ofDigitChars_fraction
    rw [hfraction, Nat.ofDigitChars_nil] at hmantissa
    simp [readDigits, hmantissa, hscale]
  · rw [readDigits, if_neg (by decide), if_pos (by rfl)]
    have hfraction := readDigits_fraction d.fraction
      (r := ⟨Nat.ofDigitChars 10 d.whole 0, 0, wide, true, true⟩) isDigit_of_mem_fraction rfl rfl
      (by rw [ofDigitChars_fraction]; exact d.mantissa_lt)
      (by rw [length_fraction, Nat.zero_add]; exact d.scale_le)
    rw [ofDigitChars_fraction, length_fraction, Nat.zero_add] at hfraction
    exact hfraction

theorem isDigit_or_point_of_mem_write {d : Decimal} (h : d.negative = false) :
    ∀ c ∈ d.write.toList, c.isDigit = true ∨ c = '.' := by
  intro c hc
  rw [toList_write h, List.mem_append] at hc
  rcases hc with hc | hc
  · exact .inl (isDigit_of_mem_whole c hc)
  · rw [pointed] at hc
    split at hc
    · cases hc
    · rcases List.mem_cons.1 hc with rfl | hc
      · exact .inr rfl
      · exact .inl (isDigit_of_mem_fraction c hc)

/-- The number without its sign. -/
def magnitude (d : Decimal) : Decimal := { d with negative := false }

/-- A number is written as its magnitude, behind a minus if it has one. -/
theorem toList_write_magnitude (d : Decimal) :
    d.write.toList = (if d.negative then ['-'] else []) ++ d.magnitude.write.toList := by
  rw [toList_write_eq, toList_write (d := d.magnitude) rfl]
  rfl

/-- What holds of the digits, of the point and of the minus holds of all characters. -/
theorem forall_mem_write {d : Decimal} {p : Char → Prop} (hdigit : ∀ c, c.isDigit = true → p c)
    (hpoint : p '.') (hminus : p '-') : ∀ c ∈ d.write.toList, p c := by
  intro c hc
  rw [toList_write_magnitude, List.mem_append] at hc
  rcases hc with hc | hc
  · split at hc
    · obtain rfl := List.mem_singleton.1 hc
      exact hminus
    · cases hc
  · rcases isDigit_or_point_of_mem_write (d := d.magnitude) rfl c hc with h | rfl
    · exact hdigit c h
    · exact hpoint

theorem isExponentMark_of_mem_write {d : Decimal} :
    ∀ c ∈ d.write.toList, isExponentMark c = false :=
  forall_mem_write (fun _ => isExponentMark_of_isDigit) rfl rfl

theorem exists_digit_write {d : Decimal} (h : d.negative = false) :
    ∃ c rest, d.write.toList = c :: rest ∧ c.isDigit = true := by
  obtain ⟨c, rest, hwhole⟩ := List.exists_cons_of_ne_nil d.whole_ne_nil
  have hmem : c ∈ d.whole := by
    rw [hwhole]
    exact List.mem_cons_self ..
  exact ⟨c, rest ++ d.pointed, by rw [toList_write h, hwhole]; rfl, isDigit_of_mem_whole c hmem⟩

/-- A text that starts with a digit has no sign. -/
theorem splitSign_of_isDigit {c : Char} (hc : c.isDigit = true) (rest : List Char) :
    splitSign (c :: rest) = (false, c :: rest) := by
  unfold splitSign
  split
  · next heq =>
    obtain ⟨rfl, -⟩ := List.cons.inj heq
    cases hc
  · next heq =>
    obtain ⟨rfl, -⟩ := List.cons.inj heq
    cases hc
  · rfl

/-- The minus of a written number is its sign, and the rest are its digits. -/
theorem splitSign_write (d : Decimal) :
    splitSign d.write.toList = (d.negative, d.whole ++ d.pointed) := by
  cases h : d.negative with
  | true =>
    rw [toList_write_eq, h]
    rfl
  | false =>
    obtain ⟨c, rest, htext, hc⟩ := exists_digit_write h
    rw [← toList_write h, htext, splitSign_of_isDigit hc]

/-- No point stands in front of a written number. -/
theorem head_write_ne_point (d : Decimal) (rest : List Char) : d.write.toList ≠ '.' :: rest := by
  intro heq
  obtain ⟨c, tail, htext, hc⟩ := exists_digit_write (d := d.magnitude) rfl
  rw [toList_write_magnitude, htext] at heq
  split at heq
  · cases (List.cons.inj heq).1
  · obtain ⟨rfl, -⟩ := List.cons.inj heq
    cases hc

/-- **A number is read as it is written**, as long as zero has no sign. -/
theorem readChars?_write {d : Decimal} (h : d.mantissa = 0 → d.negative = false) :
    readChars? d.write.toList = some d := by
  have hsign : (d.negative && d.mantissa != 0) = d.negative := by
    by_cases hzero : d.mantissa = 0
    · rw [h hzero, Bool.false_and]
    · rw [bne_iff_ne.2 hzero, Bool.and_true]
  have hplain : readPlain? d.write.toList = some d := by
    simp only [readPlain?, splitSign_write, readDigits_write, Option.bind_some, ofResult?, hsign,
      ofParts?]
    exact dif_pos ⟨d.mantissa_lt, d.scale_le⟩
  have hmark : d.write.toList.dropWhile (!isExponentMark ·) = [] := by
    rw [List.dropWhile_eq_nil_iff]
    intro c hc
    rw [isExponentMark_of_mem_write c hc]
    rfl
  unfold readChars?
  split
  · next heq => exact absurd heq (d.head_write_ne_point _)
  · dsimp only
    rw [hmark]
    exact hplain

end Decimal

end Formula
