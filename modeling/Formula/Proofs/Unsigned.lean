import Formula.Proofs.Literal

set_option autoImplicit false

/-! # Literals have no sign

A minus in front of a number is an operator. The numeral behind it starts with a digit or a point,
and what is read of such a text is a number without a sign, whatever its exponent does to it. -/

namespace Formula

/-! ## Signs of numbers -/

namespace Decimal

variable {d a b : Decimal}

theorem negative_of_ofParts? {negative : Bool} {mantissa scale : Nat}
    (h : ofParts? negative mantissa scale = some d) : d.negative = negative := by
  unfold ofParts? at h
  split at h
  · obtain rfl := Option.some.inj h
    rfl
  · cases h

theorem negative_of_mul? (ha : a.negative = false) (hb : b.negative = false)
    (h : a.mul? b = some d) : d.negative = false := by
  simp only [mul?, ha, hb, bne_self_eq_false, ofResult?, Bool.false_and] at h
  split at h
  · obtain rfl := Option.some.inj h
    rfl
  · split at h
    · split at h
      · obtain rfl := Option.some.inj h
        rfl
      · obtain ⟨found, -, hparts⟩ := Option.bind_eq_some_iff.1 h
        exact negative_of_ofParts? hparts
    · obtain ⟨found, -, hparts⟩ := Option.bind_eq_some_iff.1 h
      exact negative_of_ofParts? hparts

theorem negative_of_scaleDown? {n : Nat} (ha : a.negative = false) (h : a.scaleDown? n = some d) :
    d.negative = false := by
  unfold scaleDown? at h
  split at h
  · cases h
  · exact (negative_of_ofParts? h).trans ha

theorem negative_of_scaleUp? {n : Nat} (ha : a.negative = false) (h : a.scaleUp? n = some d) :
    d.negative = false := by
  unfold scaleUp? at h
  split at h
  · exact (negative_of_ofParts? h).trans ha
  · split at h
    · cases h
    · obtain ⟨first, hfirst, h⟩ := Option.bind_eq_some_iff.1 h
      obtain ⟨second, hsecond, h⟩ := Option.bind_eq_some_iff.1 h
      obtain ⟨middle, hmiddle, h⟩ := Option.bind_eq_some_iff.1 h
      obtain ⟨product, hproduct, h⟩ := Option.bind_eq_some_iff.1 h
      have hsign := negative_of_mul? (negative_of_mul? ha (negative_of_ofParts? hfirst) hmiddle)
        (negative_of_ofParts? hsecond) hproduct
      obtain rfl := Option.some.inj h
      rw [normalize, hsign, Bool.false_and]

/-! ## Reading without a minus in front -/

theorem splitSign_fst {text : List Char} (htext : text.head? ≠ some '-') :
    (splitSign text).1 = false := by
  unfold splitSign
  split
  · exact absurd rfl htext
  · rfl
  · rfl

theorem negative_of_readPlain? {text : List Char} (htext : text.head? ≠ some '-')
    (h : readPlain? text = some d) : d.negative = false := by
  simp only [readPlain?, splitSign_fst htext, ofResult?, Bool.false_and] at h
  obtain ⟨found, -, hparts⟩ := Option.bind_eq_some_iff.1 h
  exact negative_of_ofParts? hparts

theorem head?_ne_of_isPrefix {front text : List Char} {c : Char} (hfront : front <+: text)
    (h : text.head? ≠ some c) : front.head? ≠ some c := by
  obtain ⟨rest, rfl⟩ := hfront
  intro hhead
  rw [List.head?_append, hhead] at h
  exact h rfl

theorem negative_of_readChars?_of_ne_point {text : List Char} (hpoint : text.head? ≠ some '.')
    (htext : text.head? ≠ some '-') (h : readChars? text = some d) : d.negative = false := by
  unfold readChars? at h
  split at h
  · exact absurd rfl hpoint
  · dsimp only at h
    split at h
    · exact negative_of_readPlain? htext h
    · obtain ⟨base, hbase, h⟩ := Option.bind_eq_some_iff.1 h
      obtain ⟨⟨down, n⟩, -, h⟩ := Option.bind_eq_some_iff.1 h
      have hsign :=
        negative_of_readPlain? (head?_ne_of_isPrefix (List.takeWhile_prefix _) htext) hbase
      dsimp only at h
      split at h
      · exact negative_of_scaleDown? hsign h
      · exact negative_of_scaleUp? hsign h

/-- A point in front gets a zero before it. -/
theorem readChars?_point (text : List Char) :
    readChars? ('.' :: text) = readChars? ('0' :: '.' :: text) :=
  rfl

/-- What is read of a text without a minus in front has no sign. -/
theorem negative_of_readChars? {text : List Char} (htext : text.head? ≠ some '-')
    (h : readChars? text = some d) : d.negative = false := by
  by_cases hpoint : text.head? = some '.'
  · obtain ⟨text, rfl⟩ := List.head?_eq_some_iff.1 hpoint
    rw [readChars?_point] at h
    exact negative_of_readChars?_of_ne_point (by simp) (by simp) h
  · exact negative_of_readChars?_of_ne_point hpoint htext h

end Decimal

/-! ## Literals -/

namespace Numeral

/-- A numeric literal has no sign. -/
theorem negative_of_scan {text : List Char} {value : Decimal} {length : Nat}
    (htext : text.head? ≠ some '-') (h : scan text = .ok (value, length)) :
    value.negative = false := by
  have hhex {mark rest : List Char} (h : scanHex mark rest = .ok (value, length)) :
      value.negative = false := by
    obtain ⟨-, -, hbound, rfl⟩ := scanHex_eq_ok_iff.1 h
    rfl
  unfold scan at h
  split at h
  · exact hhex h
  · exact hhex h
  · have hnumeral := Decimal.head?_ne_of_isPrefix (decimalPart_isPrefix text) htext
    exact Decimal.negative_of_readChars? hnumeral (scanDecimal_eq_ok_iff.1 h).2

end Numeral

end Formula
