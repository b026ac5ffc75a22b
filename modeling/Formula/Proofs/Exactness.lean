import Formula.Proofs.DecimalValue
import Formula.Proofs.NumericLiteral
import Formula.Proofs.Unsigned

set_option autoImplicit false

/-! # Literals are read exactly

The digits of a literal are read first, and then the point is moved by the exponent. Where
all digits fit into a decimal neither step rounds, so a literal that is accepted is its
value, to the last digit. -/

namespace Formula

namespace Decimal

/-! ## Digits in front of and behind the point -/

/-- Whether there were digits before does not matter where one comes next. -/
theorem readDigits_of_digit {c : Char} (hc : c.isDigit = true) (r : Reading) (b : Bool)
    (rest : List Char) :
    readDigits { r with digit := b } (c :: rest) = readDigits r (c :: rest) := by
  rw [readDigits, readDigits, if_pos hc, if_pos hc]
  rfl

theorem readDigits_point {r : Reading} (h : r.point = false) (rest : List Char) :
    readDigits r ('.' :: rest) = readDigits { r with point := true } rest := by
  rw [readDigits, if_neg (by decide), if_pos (by simp [h])]

/-- A zero in front of the point makes no difference. -/
theorem readDigits_zero_point {c : Char} (hc : c.isDigit = true) (rest : List Char) :
    readDigits {} ('0' :: '.' :: c :: rest) = readDigits {} ('.' :: c :: rest) := by
  have hzero : readDigits {} ('0' :: '.' :: c :: rest) =
      readDigits ⟨0, 0, false, false, true⟩ ('.' :: c :: rest) :=
    readDigits_digit (by decide) (by decide)
  rw [hzero, readDigits_point rfl, readDigits_point rfl]
  exact readDigits_of_digit hc ⟨0, 0, false, true, false⟩ true rest

end Decimal

namespace Exponent

/-- An exponent is read as it is written, if it is not too long a number. -/
theorem readExponent?_text (x : Exponent) :
    Decimal.readExponent? (x.sign.text ++ x.digits) =
      if x.magnitude < 4294967296 then some (x.sign.isMinus, x.magnitude) else none := by
  obtain ⟨c, rest, hdigits, hc⟩ := x.exists_digit
  have hplus : c ≠ '+' := by
    rintro rfl
    cases hc
  have hminus : c ≠ '-' := by
    rintro rfl
    cases hc
  have hrest : ¬ ∃ d ∈ rest, d.isDigit = false := by
    rintro ⟨d, hd, hnot⟩
    rw [x.isDigit_digits d (by simp [hdigits, hd])] at hnot
    cases hnot
  rw [magnitude, hdigits, ← ite_not]
  generalize hn : Nat.ofDigitChars 10 (c :: rest) 0 = n
  cases x.sign <;>
    simp [Sign.text, Sign.isMinus, Decimal.readExponent?, hplus, hminus, hc, hrest, hn]

end Exponent

namespace DecimalLiteral

variable (l : DecimalLiteral)

/-! ## The steps of reading a literal -/

/-- What is read of a literal up to its exponent, with a sign in front of it. -/
def readBase? (sign : Sign) : Option Decimal :=
  (Decimal.readDigits {} l.base).bind fun (mantissa, scale) =>
    Decimal.ofResult? sign.isMinus mantissa scale

/-- The number with the point moved as the exponent says. -/
def shift? (d : Decimal) : Option Decimal :=
  match l.exponent with
  | none => some d
  | some x =>
    if x.magnitude < 4294967296 then
      if x.sign.isMinus then d.scaleDown? x.magnitude else d.scaleUp? x.magnitude
    else
      none

/-- Without an exponent the point stays where it is. -/
theorem shift?_of_none (h : l.exponent = none) : l.shift? = some := by
  funext d
  rw [shift?, h]

theorem base_cases : (∃ c rest, l.base = c :: rest ∧ c.isDigit = true) ∨
    ∃ c rest, l.base = '.' :: c :: rest ∧ c.isDigit = true := by
  match hwhole : l.whole with
  | c :: tail =>
    exact .inl ⟨c, tail ++ l.pointText, by simp [base, hwhole],
      l.isDigit_whole c (by simp [hwhole])⟩
  | [] =>
    have hne : l.fraction ≠ [] := by simpa [hwhole] using l.digits_ne_nil
    obtain ⟨c, tail, hfraction⟩ := List.exists_cons_of_ne_nil hne
    exact .inr ⟨c, tail, by simp [base, hwhole, pointText, hfraction],
      l.isDigit_fraction c (by simp [hfraction])⟩

theorem isExponentMark_of_mem_base : ∀ c ∈ l.base, Decimal.isExponentMark c = false := by
  intro c hc
  rcases List.mem_append.1 hc with hc | hc
  · exact isExponentMark_of_isDigit (l.isDigit_whole c hc)
  · unfold pointText at hc
    split at hc
    · cases hc
    · rcases List.mem_cons.1 hc with rfl | hc
      · rfl
      · exact isExponentMark_of_isDigit (l.isDigit_fraction c hc)

theorem readPlain?_base (sign : Sign) :
    Decimal.readPlain? (sign.text ++ l.base) = l.readBase? sign := by
  have hsplit : Decimal.splitSign (sign.text ++ l.base) = (sign.isMinus, l.base) := by
    cases sign with
    | plus => rfl
    | minus => rfl
    | absent =>
      rcases l.base_cases with ⟨c, rest, hbase, hc⟩ | ⟨c, rest, hbase, hc⟩
      · rw [hbase]
        exact Decimal.splitSign_of_isDigit hc rest
      · rw [hbase]
        rfl
  rw [Decimal.readPlain?, hsplit, readBase?]

/-- A point in front of everything gets a zero before it, which makes no difference. -/
theorem readPlain?_zero_base (h : l.base.head? = some '.') :
    Decimal.readPlain? ('0' :: l.base) = l.readBase? .absent := by
  rcases l.base_cases with ⟨c, rest, hbase, hc⟩ | ⟨c, rest, hbase, hc⟩
  · rw [hbase] at h
    obtain rfl := Option.some.inj h
    cases hc
  · rw [readBase?, hbase, ← Decimal.readDigits_zero_point hc]
    rfl

/-- A text that ends in the exponent of the literal is cut in front of it. -/
theorem readChars?_of_front {front : List Char} (hpoint : front.head? ≠ some '.')
    (hne : front ≠ []) (hfront : ∀ c ∈ front, Decimal.isExponentMark c = false) :
    Decimal.readChars? (front ++ l.exponentText) = (Decimal.readPlain? front).bind l.shift? := by
  have hall : ∀ c ∈ front, (!Decimal.isExponentMark c) = true := by simpa using hfront
  have hhead : ∀ rest, front ++ l.exponentText ≠ '.' :: rest := by
    intro rest heq
    match front, hne with
    | c :: front, _ =>
      obtain ⟨rfl, -⟩ := List.cons.inj heq
      exact hpoint rfl
  unfold Decimal.readChars?
  split
  · next rest heq => exact absurd heq (hhead _)
  · dsimp only
    rw [List.dropWhile_append_of_pos hall, List.takeWhile_append_of_pos hall]
    rcases l.exponentText_cases with ⟨htext, hexponent⟩ | ⟨x, htext, hexponent⟩
    · rw [htext, l.shift?_of_none hexponent, Option.bind_fun_some]
      simp
    · rw [htext, Exponent.text, List.dropWhile_cons_of_neg (by simp [x.isExponentMark_mark]),
        List.takeWhile_cons_of_neg (by simp [x.isExponentMark_mark]), List.append_nil]
      dsimp only
      rw [x.readExponent?_text]
      refine Option.bind_congr fun d _ => ?_
      rw [shift?, hexponent]
      dsimp only
      split <;> rfl

/-- A literal, with or without a sign in front, is read up to its exponent, and
    then the point is moved. -/
theorem readChars?_text (sign : Sign) :
    Decimal.readChars? (sign.text ++ l.text) = (l.readBase? sign).bind l.shift? := by
  have hmarks := l.isExponentMark_of_mem_base
  by_cases hpoint : (sign.text ++ l.base).head? = some '.'
  · -- only without a sign can a point stand in front of everything
    obtain rfl : sign = .absent := by
      cases sign with
      | absent => rfl
      | plus => exact absurd (Option.some.inj hpoint) (by decide)
      | minus => exact absurd (Option.some.inj hpoint) (by decide)
    obtain ⟨rest, hbase⟩ := List.head?_eq_some_iff.1 hpoint
    rw [Sign.text, List.nil_append] at hbase
    have hzero : Decimal.readChars? (Sign.absent.text ++ l.text) =
        Decimal.readChars? (('0' :: l.base) ++ l.exponentText) := by
      rw [Sign.text, List.nil_append, text, hbase]
      exact Decimal.readChars?_point _
    rw [hzero, l.readChars?_of_front (by simp) (by simp) (by simpa using ⟨rfl, hmarks⟩),
      l.readPlain?_zero_base (by rw [hbase]; rfl)]
  · rw [text, ← List.append_assoc, l.readChars?_of_front hpoint, l.readPlain?_base]
    · intro hnil
      have hbase := (List.append_eq_nil_iff.1 hnil).2
      rcases l.base_cases with ⟨c, rest, heq, -⟩ | ⟨c, rest, heq, -⟩
      · rw [heq] at hbase
        cases hbase
      · rw [heq] at hbase
        cases hbase
    · intro c hc
      rcases List.mem_append.1 hc with hc | hc
      · cases sign <;> simp_all [Sign.text] <;> rfl
      · exact hmarks c hc

theorem readChars?_unsigned : Decimal.readChars? l.text = (l.readBase? .absent).bind l.shift? :=
  l.readChars?_text .absent

/-! ## The value that is read -/

/-- A number that has the sign, or is zero, is what the sign makes of its magnitude. -/
theorem value_eq_apply {d : Decimal} {sign : Sign}
    (h : d.negative = sign.isMinus ∨ d.mantissa = 0) :
    d.value = sign.apply ((d.mantissa : ℚ) / 10 ^ d.scale) := by
  rcases h with h | h
  · cases sign <;> simp_all [Decimal.value, Decimal.signed, Sign.isMinus, Sign.apply, neg_div]
  · rw [Decimal.value_eq_zero_iff.2 h, h]
    cases sign <;> simp [Sign.apply]

/-- What is read up to the exponent is what the sign makes of the digits that are read. -/
theorem readBase?_eq_some {sign : Sign} {d : Decimal} (h : l.readBase? sign = some d) :
    Decimal.readDigits {} l.base = some (d.mantissa, d.scale) ∧
      d.value = sign.apply ((d.mantissa : ℚ) / 10 ^ d.scale) := by
  obtain ⟨⟨mantissa, scale⟩, hdigits, h⟩ := Option.bind_eq_some_iff.1 h
  obtain ⟨hsign, hmantissa, hscale⟩ := Decimal.ofResult?_eq_some h
  exact ⟨by rw [hdigits, hmantissa, hscale], value_eq_apply hsign⟩

/-- The point is moved as far as the exponent says, and nothing is rounded. -/
theorem value_of_shift? {d e : Decimal} (h : l.shift? d = some e) :
    e.value = d.value * 10 ^ l.exponentValue := by
  unfold shift? at h
  split at h
  · next hexponent =>
    cases h
    simp [exponentValue, hexponent]
  · next x hexponent =>
    have hvalue : l.exponentValue = x.value := by simp [exponentValue, hexponent]
    split at h
    · split at h
      · next hminus =>
        rw [Decimal.value_of_scaleDown? h, hvalue,
          Exponent.value_of_minus (Sign.isMinus_eq_true_iff.1 hminus), zpow_neg, zpow_natCast,
          div_eq_mul_inv]
      · next hminus =>
        rw [Decimal.value_of_scaleUp? h, hvalue,
          Exponent.value_of_ne_minus (Sign.isMinus_eq_true_iff.not.1 hminus), zpow_natCast]
    · cases h

/-- How far the point of a number can be moved. -/
theorem exists_shift?_iff {d : Decimal} {x : Exponent} (hexponent : l.exponent = some x) :
    (∃ e, l.shift? d = some e) ↔
      x.magnitude ≤ Decimal.maxScale ∧
        (x.sign = .minus → d.scale + x.magnitude ≤ Decimal.maxScale) ∧
        (x.sign ≠ .minus → |d.value| * 10 ^ x.magnitude < Decimal.bound) := by
  rw [shift?, hexponent]
  dsimp only
  have hshort : x.magnitude ≤ Decimal.maxScale → x.magnitude < 4294967296 :=
    fun h => Nat.lt_of_le_of_lt h (by decide)
  by_cases hminus : x.sign = .minus
  · have hscale : d.scale + x.magnitude ≤ Decimal.maxScale → x.magnitude ≤ Decimal.maxScale :=
      Nat.le_trans (Nat.le_add_left ..)
    simp only [hminus, Sign.isMinus, if_true, true_implies, ne_eq, not_true_eq_false, false_implies,
      and_true]
    by_cases hlong : x.magnitude < 4294967296
    · rw [if_pos hlong, Decimal.exists_scaleDown?_iff]
      tauto
    · rw [if_neg hlong]
      simp only [reduceCtorEq, exists_false, false_iff]
      tauto
  · have hplus : x.sign.isMinus = false :=
      Bool.eq_false_iff.2 (Sign.isMinus_eq_true_iff.not.2 hminus)
    simp only [hminus, hplus, Bool.false_eq_true, if_false, false_implies, ne_eq, not_false_eq_true,
      true_implies, true_and]
    by_cases hlong : x.magnitude < 4294967296
    · rw [if_pos hlong, Decimal.exists_scaleUp?_iff]
    · rw [if_neg hlong]
      simp only [reduceCtorEq, exists_false, false_iff]
      tauto

/-- The digits in front of the point are read first. -/
theorem readDigits_base_start (hrange : Nat.ofDigitChars 10 l.whole 0 < Decimal.bound) :
    ∃ wide, Decimal.readDigits {} l.base =
      Decimal.readDigits ⟨Nat.ofDigitChars 10 l.whole 0, 0, wide, false, !l.whole.isEmpty⟩
        l.pointText :=
  Decimal.readDigits_whole l.whole l.isDigit_whole rfl hrange

/-- The digits of a literal without a fraction. -/
theorem readDigits_base_whole (hfraction : l.fraction = [])
    (hrange : l.coefficient < Decimal.bound) :
    Decimal.readDigits {} l.base = some (l.coefficient, 0) := by
  have hwhole : l.whole ≠ [] := by simpa [hfraction] using l.digits_ne_nil
  have hcoefficient : l.coefficient = Nat.ofDigitChars 10 l.whole 0 := by
    rw [coefficient, hfraction, List.append_nil]
  rw [hcoefficient] at hrange ⊢
  obtain ⟨wide, hread⟩ := l.readDigits_base_start hrange
  rw [hread, pointText, if_pos hfraction, Decimal.readDigits]
  simp [hwhole]

/-- The digits of a literal with a fraction are read up to the point. -/
theorem readDigits_base_fraction (hfraction : l.fraction ≠ [])
    (hrange : Nat.ofDigitChars 10 l.whole 0 < Decimal.bound) :
    ∃ wide, Decimal.readDigits {} l.base =
      Decimal.readDigits ⟨Nat.ofDigitChars 10 l.whole 0, 0, wide, true, true⟩ l.fraction := by
  obtain ⟨wide, hread⟩ := l.readDigits_base_start hrange
  refine ⟨wide, ?_⟩
  rw [hread, pointText, if_neg hfraction, Decimal.readDigits_point rfl]
  obtain ⟨c, rest, heq⟩ := List.exists_cons_of_ne_nil hfraction
  have hc : c.isDigit = true := l.isDigit_fraction c (by simp [heq])
  rw [heq]
  exact Decimal.readDigits_of_digit hc ⟨_, 0, wide, true, true⟩ _ rest

/-- Digits that all fit are all read. -/
theorem readDigits_base (hrange : l.coefficient < Decimal.bound)
    (hplaces : l.fraction.length ≤ Decimal.maxScale) :
    Decimal.readDigits {} l.base = some (l.coefficient, l.fraction.length) := by
  by_cases hfraction : l.fraction = []
  · rw [l.readDigits_base_whole hfraction hrange, hfraction]
    rfl
  · rw [coefficient, Nat.ofDigitChars_append] at hrange ⊢
    have hwhole := Nat.lt_of_le_of_lt (Decimal.le_ofDigitChars l.fraction _) hrange
    obtain ⟨wide, hread⟩ := l.readDigits_base_fraction hfraction hwhole
    rw [hread, Decimal.readDigits_fraction l.fraction l.isDigit_fraction rfl rfl hrange
      (by simpa using hplaces)]
    simp

/-- What is read of a literal whose digits all fit is the number that the literal denotes. -/
theorem value_of_readChars? {d : Decimal} (hrange : l.coefficient < Decimal.bound)
    (hplaces : l.fraction.length ≤ Decimal.maxScale) (h : Decimal.readChars? l.text = some d) :
    d.value = l.value := by
  rw [l.readChars?_unsigned] at h
  obtain ⟨base, hbase, hshift⟩ := Option.bind_eq_some_iff.1 h
  obtain ⟨hdigits, hvalue⟩ := l.readBase?_eq_some hbase
  obtain ⟨hmantissa, hscale⟩ :=
    Prod.mk.inj (Option.some.inj (hdigits.symm.trans (l.readDigits_base hrange hplaces)))
  rw [l.value_of_shift? hshift, hvalue, hmantissa, hscale]
  rfl

end DecimalLiteral

/-! ## Parsing -/

/-- A decimal literal whose digits up to the exponent fit into a decimal is parsed to nothing but
    its value, and a hexadecimal literal is parsed to its value exactly if it fits into 64 bits. The
    letter behind a literal has no meaning. -/
theorem parse_literal_exact :
    (∀ (l : DecimalLiteral) (suffix : Option Char), (∀ c ∈ suffix, c ∈ DecimalLiteral.suffixes) →
      l.coefficient < 2 ^ 96 → l.fraction.length ≤ 28 →
      ∀ e, parse (String.ofList (l.text ++ suffix.toList)) = .ok e →
        ∃ d : Decimal, e = .constant (.number d) ∧ d.value = l.value) ∧
    ∀ (l : HexLiteral) (suffix : Option Char), (∀ c ∈ suffix, c ∈ HexLiteral.suffixes) →
      (l.value < 2 ^ 64 →
        ∃ d : Decimal, parse (String.ofList (l.text ++ suffix.toList)) =
          .ok (.constant (.number d)) ∧ d.value = l.value) ∧
      (2 ^ 64 ≤ l.value →
        ∃ cause, parse (String.ofList (l.text ++ suffix.toList)) = .error ⟨0, cause⟩) := by
  constructor
  · intro l suffix hsuffix hrange hplaces e h
    rw [l.parse_text hsuffix] at h
    split at h
    · next d hread =>
      exact ⟨d, (Except.ok.inj h).symm, l.value_of_readChars? hrange hplaces hread⟩
    · cases h
  · intro l suffix hsuffix
    rw [l.parse_text hsuffix]
    constructor
    · intro hrange
      rw [dif_pos (by simpa using hrange)]
      refine ⟨_, rfl, ?_⟩
      rw [Decimal.value_of_unsigned rfl]
      simp [Decimal.ofWord]
    · intro hrange
      rw [dif_neg (by simpa using hrange)]
      exact ⟨_, rfl⟩

/-- `12.50e-3`. -/
def DecimalLiteral.thousandths : DecimalLiteral where
  whole := ['1', '2']
  fraction := ['5', '0']
  exponent := some ⟨'e', .minus, ['3'], isExponentMark_e, List.all_eq_true.1 rfl, by simp⟩
  isDigit_whole := List.all_eq_true.1 rfl
  isDigit_fraction := List.all_eq_true.1 rfl
  digits_ne_nil := by simp

/-- `0x10000000000000000`, two to the 64. -/
def HexLiteral.pastWord : HexLiteral where
  mark := 'x'
  digits := '1' :: List.replicate 16 '0'
  mark_mem := by simp
  mem_digits := by simp [hexDigits]
  digits_ne_nil := by simp

theorem parse_literal_exact_thousandths :
    (∃ d : Decimal, parse "12.50e-3m" = .ok (.constant (.number d)) ∧ d.value = 1 / 80) ∧
      ∃ cause, parse "0x10000000000000000L" = .error ⟨0, cause⟩ := by
  constructor
  · have hread : parse "12.50e-3m" =
        .ok (.constant (.number ⟨false, 1250, 5, by decide, by decide⟩)) := by
      decide +kernel
    have hvalue : DecimalLiteral.thousandths.value = 1 / 80 := by
      have hbase : DecimalLiteral.thousandths.baseValue = 1250 / 10 ^ 2 := rfl
      have hexponent : DecimalLiteral.thousandths.exponentValue = -3 := rfl
      rw [DecimalLiteral.value, hbase, hexponent]
      norm_num
    obtain ⟨d, hd, hd'⟩ := parse_literal_exact.1 .thousandths (some 'm')
      (by simp [DecimalLiteral.suffixes]) (by decide) (by decide) _ hread
    exact ⟨d, hd ▸ hread, hd'.trans hvalue⟩
  · exact (parse_literal_exact.2 .pastWord (some 'L') (by simp [HexLiteral.suffixes])).2 (by decide)

end Formula
