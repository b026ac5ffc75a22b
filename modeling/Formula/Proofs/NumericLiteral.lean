import Formula.Proofs.Display
import Formula.Proofs.Recognition
import Mathlib.Algebra.Field.Rat
import Mathlib.Data.Nat.Digits.Defs

set_option autoImplicit false

/-! # Numeric literals

How numbers are written, said without the lexer: a decimal literal has digits, a point with digits
behind it, or both, and may have an exponent; a hexadecimal literal has digits behind a mark. One
letter may stand behind either. The lexer takes all of such a text, so what the text is parsed to
depends on what is read of it and on nothing else. -/

namespace Formula

/-! ## Signs and exponents -/

/-- A sign that can be left out. -/
inductive Sign where
  | absent
  | plus
  | minus
  deriving DecidableEq

namespace Sign

/-- How the sign is written. -/
def text : Sign → List Char
  | absent => []
  | plus => ['+']
  | minus => ['-']

/-- Whether the sign is a minus. -/
def isMinus : Sign → Bool
  | minus => true
  | _ => false

theorem isMinus_eq_true_iff {sign : Sign} : sign.isMinus = true ↔ sign = minus := by
  cases sign <;> simp [isMinus]

/-- What the sign makes of the number behind it. -/
def apply {α : Type} [Neg α] (sign : Sign) (a : α) : α :=
  match sign with
  | minus => -a
  | _ => a

end Sign

/-- The exponent of a literal. -/
structure Exponent where
  mark : Char
  sign : Sign
  digits : List Char
  isExponentMark_mark : Decimal.isExponentMark mark = true
  isDigit_digits : ∀ c ∈ digits, c.isDigit = true
  digits_ne_nil : digits ≠ []

namespace Exponent

/-- How the exponent is written. -/
def text (x : Exponent) : List Char := x.mark :: (x.sign.text ++ x.digits)

/-- The number that the digits spell. -/
def magnitude (x : Exponent) : Nat := Nat.ofDigitChars 10 x.digits 0

/-- The power of ten that the exponent stands for. -/
def value (x : Exponent) : ℤ := x.sign.apply (x.magnitude : ℤ)

theorem value_of_minus {x : Exponent} (h : x.sign = .minus) : x.value = -(x.magnitude : ℤ) := by
  rw [value, h]
  rfl

theorem value_of_ne_minus {x : Exponent} (h : x.sign ≠ .minus) : x.value = x.magnitude := by
  rw [value]
  cases hsign : x.sign with
  | absent => rfl
  | plus => rfl
  | minus => exact absurd hsign h

end Exponent

/-! ## Decimal literals -/

/-- A decimal literal, without the letter that may stand behind it. There are digits on at least one
    side of the point, and there is no point without digits behind it. -/
structure DecimalLiteral where
  whole : List Char
  fraction : List Char
  exponent : Option Exponent
  isDigit_whole : ∀ c ∈ whole, c.isDigit = true
  isDigit_fraction : ∀ c ∈ fraction, c.isDigit = true
  digits_ne_nil : whole ++ fraction ≠ []

namespace DecimalLiteral

variable (l : DecimalLiteral)

/-- The point and the digits behind it. -/
def pointText : List Char := if l.fraction = [] then [] else '.' :: l.fraction

/-- The literal up to its exponent. -/
def base : List Char := l.whole ++ l.pointText

/-- The exponent, if there is one. -/
def exponentText : List Char := (l.exponent.map Exponent.text).getD []

/-- How the literal is written. -/
def text : List Char := l.base ++ l.exponentText

/-- The number that the digits on both sides of the point spell. -/
def coefficient : Nat := Nat.ofDigitChars 10 (l.whole ++ l.fraction) 0

/-- The number that the literal denotes up to its exponent. -/
def baseValue : ℚ := l.coefficient / 10 ^ l.fraction.length

/-- The power of ten of the exponent. -/
def exponentValue : ℤ := (l.exponent.map Exponent.value).getD 0

/-- The number that the literal denotes. -/
def value : ℚ := l.baseValue * 10 ^ l.exponentValue

/-- The letters of which one may stand behind a decimal literal. -/
def suffixes : List Char := ['m', 'M', 'd', 'D', 'f', 'F', 'l', 'L', 'u', 'U']

end DecimalLiteral

/-! ## Hexadecimal literals -/

/-- The hexadecimal digits in the order of their values. -/
def hexDigits : List Char :=
  ['0', '1', '2', '3', '4', '5', '6', '7', '8', '9', 'a', 'b', 'c', 'd', 'e', 'f']

/-- A hexadecimal literal, without the letter that may stand behind it. -/
structure HexLiteral where
  mark : Char
  digits : List Char
  mark_mem : mark ∈ ['x', 'X']
  mem_digits : ∀ c ∈ digits, c ∈ hexDigits ∨ c ∈ hexDigits.map Char.toUpper
  digits_ne_nil : digits ≠ []

namespace HexLiteral

variable (l : HexLiteral)

/-- How the literal is written. -/
def text : List Char := '0' :: l.mark :: l.digits

/-- The number that the literal denotes. -/
def value : Nat := Nat.ofDigits 16 (l.digits.reverse.map fun c => hexDigits.idxOf c.toLower)

/-- The letters of which one may stand behind a hexadecimal literal: the others are digits. -/
def suffixes : List Char := ['m', 'M', 'l', 'L', 'u', 'U']

end HexLiteral

/-! ## Where a numeral ends -/

/-- What stands behind a numeral does not make it longer. -/
def EndsNumeral (rest : List Char) : Prop :=
  ∀ c ∈ rest.head?, c.isDigit = false ∧ c ≠ '.' ∧ Decimal.isExponentMark c = false

theorem endsNumeral_nil : EndsNumeral [] := by
  intro c hc
  cases hc

theorem isExponentMark_e : Decimal.isExponentMark 'e' = true := rfl

namespace Exponent

variable (x : Exponent)

theorem exists_digit : ∃ c rest, x.digits = c :: rest ∧ c.isDigit = true := by
  obtain ⟨c, rest, hdigits⟩ := List.exists_cons_of_ne_nil x.digits_ne_nil
  exact ⟨c, rest, hdigits, x.isDigit_digits c (by simp [hdigits])⟩

theorem signPart_text (rest : List Char) :
    Numeral.signPart (x.sign.text ++ (x.digits ++ rest)) = x.sign.text := by
  cases x.sign with
  | plus => rfl
  | minus => rfl
  | absent =>
    obtain ⟨c, tail, hdigits, hc⟩ := x.exists_digit
    rw [hdigits]
    simp only [Sign.text, List.nil_append, List.cons_append, Numeral.signPart]
    split
    · next heq =>
      obtain ⟨rfl, -⟩ := List.cons.inj heq
      cases hc
    · next heq =>
      obtain ⟨rfl, -⟩ := List.cons.inj heq
      cases hc
    · rfl

/-- An exponent is taken up to its last digit. -/
theorem exponentPart_text {rest : List Char} (h : ∀ c ∈ rest.head?, c.isDigit = false) :
    Numeral.exponentPart (x.text ++ rest) = x.text := by
  have hempty : x.digits.isEmpty = false := List.isEmpty_eq_false_iff.2 x.digits_ne_nil
  rw [text, List.cons_append, List.append_assoc, Numeral.exponentPart, x.signPart_text,
    List.drop_left, Numeral.takeWhile_digits x.isDigit_digits h, x.isExponentMark_mark, hempty]
  rfl

end Exponent

namespace DecimalLiteral

variable (l : DecimalLiteral)

theorem exponentText_cases : l.exponentText = [] ∧ l.exponent = none ∨
    ∃ x, l.exponentText = x.text ∧ l.exponent = some x := by
  unfold exponentText
  cases l.exponent with
  | none => exact .inl ⟨rfl, rfl⟩
  | some x => exact .inr ⟨x, rfl, rfl⟩

/-- Neither digits nor a point come behind the digits. -/
theorem head_exponentText {rest : List Char} (h : EndsNumeral rest) :
    ∀ c ∈ (l.exponentText ++ rest).head?, c.isDigit = false ∧ c ≠ '.' := by
  intro c hc
  rcases l.exponentText_cases with ⟨htext, -⟩ | ⟨x, htext, -⟩
  · rw [htext, List.nil_append] at hc
    exact ⟨(h c hc).1, (h c hc).2.1⟩
  · rw [htext, Exponent.text] at hc
    obtain rfl := Option.some.inj hc
    rcases eq_of_isExponentMark x.isExponentMark_mark with hmark | hmark <;> rw [hmark] <;> decide

theorem exponentPart_exponentText {rest : List Char} (h : EndsNumeral rest) :
    Numeral.exponentPart (l.exponentText ++ rest) = l.exponentText := by
  rcases l.exponentText_cases with ⟨htext, -⟩ | ⟨x, htext, -⟩
  · rw [htext, List.nil_append]
    cases rest with
    | nil => rfl
    | cons c rest => simp [Numeral.exponentPart, (h c rfl).2.2]
  · rw [htext]
    exact x.exponentPart_text fun c hc => (h c hc).1

theorem pointPart_pointText {rest : List Char} (h : ∀ c ∈ rest.head?, c.isDigit = false ∧ c ≠ '.') :
    Numeral.pointPart (l.pointText ++ rest) = l.pointText := by
  unfold pointText
  split
  · rw [List.nil_append]
    unfold Numeral.pointPart
    split
    · exact absurd rfl (h '.' rfl).2
    · rfl
  · next hfraction =>
    have hempty : l.fraction.isEmpty = false := List.isEmpty_eq_false_iff.2 hfraction
    rw [List.cons_append, Numeral.pointPart,
      Numeral.takeWhile_digits l.isDigit_fraction fun c hc => (h c hc).1, hempty]
    rfl

theorem head_pointText {rest : List Char} (h : ∀ c ∈ rest.head?, c.isDigit = false) :
    ∀ c ∈ (l.pointText ++ rest).head?, c.isDigit = false := by
  intro c hc
  unfold pointText at hc
  split at hc
  · exact h c hc
  · obtain rfl := Option.some.inj hc
    decide

/-- A literal is taken as a numeral up to its end. -/
theorem decimalPart_text {rest : List Char} (h : EndsNumeral rest) :
    Numeral.decimalPart (l.text ++ rest) = l.text := by
  have hexponent := l.head_exponentText h
  rw [text, base, List.append_assoc, List.append_assoc]
  unfold Numeral.decimalPart
  dsimp only
  rw [Numeral.takeWhile_digits l.isDigit_whole (l.head_pointText fun c hc => (hexponent c hc).1),
    List.drop_left, l.pointPart_pointText hexponent, List.drop_left, l.exponentPart_exponentText h,
    List.append_assoc]

/-- The characters of a literal. -/
theorem mem_text {c : Char} (h : c ∈ l.text) :
    c.isDigit = true ∨ c ∈ ['.', 'e', 'E', '+', '-'] := by
  simp only [text, base, List.mem_append] at h
  rcases h with (h | h) | h
  · exact .inl (l.isDigit_whole c h)
  · unfold pointText at h
    split at h
    · cases h
    · rcases List.mem_cons.1 h with rfl | h
      · exact .inr (by decide)
      · exact .inl (l.isDigit_fraction c h)
  · rcases l.exponentText_cases with ⟨htext, -⟩ | ⟨x, htext, -⟩
    · rw [htext] at h
      cases h
    · rw [htext, Exponent.text, List.mem_cons, List.mem_append] at h
      rcases h with rfl | h | h
      · rcases eq_of_isExponentMark x.isExponentMark_mark with hmark | hmark <;> simp [hmark]
      · right
        cases hsign : x.sign <;> simp_all [Sign.text]
      · exact .inl (x.isDigit_digits c h)

end DecimalLiteral

/-! ## Texts of one number -/

/-- Whether a text starts as only numbers do: with a digit, or with a point and a digit. -/
def startsNumber : List Char → Bool
  | [] => false
  | c :: rest => c.isDigit || c == '.' && rest.head?.any Char.isDigit

theorem Token.scan_of_startsNumber {c : Char} {rest : List Char}
    (h : startsNumber (c :: rest) = true) :
    Token.scan c rest = Token.scanNumber c rest := by
  simp only [startsNumber, Bool.or_eq_true, Bool.and_eq_true, beq_iff_eq] at h
  rcases h with hdigit | ⟨rfl, hrest⟩
  · rw [scan_plain (single?_eq_none (not_mem_of_class hdigit (by decide)))
      (not_mem_of_class hdigit (by decide)), if_pos hdigit]
  · rw [scan_dot, if_pos hrest]

theorem isBlank_of_startsNumber {c : Char} {rest : List Char}
    (h : startsNumber (c :: rest) = true) :
    isBlank c = false := by
  simp only [startsNumber, Bool.or_eq_true, Bool.and_eq_true, beq_iff_eq] at h
  rcases h with hdigit | ⟨rfl, -⟩
  · exact Token.isBlank_of_class hdigit (by decide)
  · rfl

section

variable {text : List Char} (hstart : startsNumber text = true)

include hstart

/-- A text that is a number to its end is one token. -/
theorem tokenize_of_scan {value : Decimal} (h : Numeral.scan text = .ok (value, text.length)) :
    Token.tokenize (String.ofList text) = .ok [⟨.number value, 0⟩] := by
  match text with
  | c :: rest =>
    rw [Token.tokenize, String.toList_ofList,
      Token.lex_cons_eq_ok_iff (isBlank_of_startsNumber hstart)]
    refine ⟨.number value, rest.length, [], ?_, ?_, rfl⟩
    · rw [Token.scan_of_startsNumber hstart, Token.scanNumber_eq_ok_iff]
      exact ⟨value, _, h, rfl, rfl⟩
    · rw [List.drop_length, Token.lex_nil]

theorem parse_of_scan {value : Decimal} (h : Numeral.scan text = .ok (value, text.length)) :
    parse (String.ofList text) = .ok (.constant (.number value)) :=
  parse_of_primary (tokenize_of_scan hstart h) (by simp) (.number value [])

/-- A number that is refused is refused where it starts. -/
theorem parse_of_scan_error {cause : ParseError.Cause} (h : Numeral.scan text = .error cause) :
    parse (String.ofList text) = .error ⟨0, cause⟩ := by
  match text with
  | c :: rest =>
    have hscan : Token.scan c rest = .error ⟨0, cause⟩ := by
      rw [Token.scan_of_startsNumber hstart, Token.scanNumber, h]
      rfl
    have htokens : Token.tokenize (String.ofList (c :: rest)) = .error ⟨0, cause⟩ := by
      rw [Token.tokenize, String.toList_ofList, Token.lex,
        if_neg (by simp [isBlank_of_startsNumber hstart]), hscan]
      rfl
    rw [parse, parseWith, parseRecording, htokens]

end

/-! ## Literals with a letter behind them -/

/-- The length of a literal with an optional letter behind it. -/
theorem Numeral.literalLength_suffix (numeral : List Char) {suffix : Option Char}
    (h : ∀ c ∈ suffix.toList, isSuffix c = true) :
    literalLength numeral suffix.toList = .ok (numeral ++ suffix.toList).length := by
  cases suffix with
  | none => simp [literalLength, suffixPart]
  | some c => simp [literalLength, suffixPart, h c (by simp)]

/-- What holds of every letter that may stand behind a literal holds of the one that does. -/
theorem of_mem_suffix {suffix : Option Char} {letters : List Char} (h : ∀ c ∈ suffix, c ∈ letters)
    {p : Char → Bool} (hp : letters.all p = true) : ∀ c ∈ suffix.toList, p c = true := by
  intro c hc
  refine List.all_eq_true.1 hp c (h c ?_)
  simpa using hc

namespace DecimalLiteral

variable (l : DecimalLiteral)

theorem startsNumber_text (rest : List Char) : startsNumber (l.text ++ rest) = true := by
  match hwhole : l.whole with
  | c :: tail =>
    have hc : c.isDigit = true := l.isDigit_whole c (by simp [hwhole])
    simp [text, base, hwhole, startsNumber, hc]
  | [] =>
    have hne : l.fraction ≠ [] := by simpa [hwhole] using l.digits_ne_nil
    obtain ⟨c, tail, hfraction⟩ := List.exists_cons_of_ne_nil hne
    have hc : c.isDigit = true := l.isDigit_fraction c (by simp [hfraction])
    simp [text, base, hwhole, pointText, hfraction, startsNumber, hc]

theorem endsNumeral_suffix {suffix : Option Char} (h : ∀ c ∈ suffix, c ∈ suffixes) :
    EndsNumeral suffix.toList := by
  intro c hc
  have hclass := of_mem_suffix h
    (p := fun c => !c.isDigit && c != '.' && !Decimal.isExponentMark c) (by decide) c
    (List.mem_of_mem_head? hc)
  simpa [and_assoc] using hclass

/-- A literal is read by the rule for decimal numbers. -/
theorem scan_text {suffix : Option Char} (h : ∀ c ∈ suffix, c ∈ suffixes) :
    Numeral.scan (l.text ++ suffix.toList) = Numeral.scanDecimal (l.text ++ suffix.toList) := by
  have hmark {m : Char} {rest : List Char} (heq : l.text ++ suffix.toList = '0' :: m :: rest) :
      m ≠ 'x' ∧ m ≠ 'X' := by
    have hmem : m ∈ l.text ++ suffix.toList := by simp [heq]
    rcases List.mem_append.1 hmem with hmem | hmem
    · rcases l.mem_text hmem with hdigit | hmem
      · have hnot : m ∉ ['x', 'X'] := Token.not_mem_of_class hdigit (by decide)
        simpa using hnot
      · simpa using List.all_eq_true.1
          (by decide : ['.', 'e', 'E', '+', '-'].all (fun m => m != 'x' && m != 'X') = true) m hmem
    · simpa using of_mem_suffix h (p := fun m => m != 'x' && m != 'X') (by decide) m hmem
  unfold Numeral.scan
  split
  · next heq => exact absurd rfl (hmark heq).1
  · next heq => exact absurd rfl (hmark heq).2
  · rfl

/-- A literal is a numeral to its end, and its value is what is read of it without the letter. -/
theorem scan_text_suffix {suffix : Option Char} (h : ∀ c ∈ suffix, c ∈ suffixes) :
    Numeral.scan (l.text ++ suffix.toList) =
      match Decimal.readChars? l.text with
      | some value => .ok (value, (l.text ++ suffix.toList).length)
      | none => .error (.numberOutOfRange (String.ofList l.text)) := by
  rw [l.scan_text h, Numeral.scanDecimal, l.decimalPart_text (endsNumeral_suffix h), List.drop_left,
    Numeral.literalLength_suffix l.text (of_mem_suffix h (by decide))]
  cases Decimal.readChars? l.text <;> rfl

/-- A literal is parsed to what is read of it without the letter. -/
theorem parse_text {suffix : Option Char} (h : ∀ c ∈ suffix, c ∈ suffixes) :
    parse (String.ofList (l.text ++ suffix.toList)) =
      match Decimal.readChars? l.text with
      | some value => .ok (.constant (.number value))
      | none => .error ⟨0, .numberOutOfRange (String.ofList l.text)⟩ := by
  have hscan := l.scan_text_suffix h
  have hstart := l.startsNumber_text suffix.toList
  cases hread : Decimal.readChars? l.text with
  | some value =>
    rw [hread] at hscan
    exact parse_of_scan hstart hscan
  | none =>
    rw [hread] at hscan
    exact parse_of_scan_error hstart hscan

/-- A literal without a letter behind it is parsed to what is read of it. -/
theorem parse_text_alone :
    parse (String.ofList l.text) =
      match Decimal.readChars? l.text with
      | some value => .ok (.constant (.number value))
      | none => .error ⟨0, .numberOutOfRange (String.ofList l.text)⟩ := by
  have h : ∀ c ∈ (none : Option Char), c ∈ suffixes := by simp
  simpa using l.parse_text h

end DecimalLiteral

/-! ## Hexadecimal digits -/

namespace HexLiteral

variable (l : HexLiteral)

/-- What holds of every hexadecimal digit. -/
theorem all_digits {p : Char → Bool} (hp : (hexDigits ++ hexDigits.map Char.toUpper).all p = true) :
    ∀ c ∈ l.digits, p c = true :=
  fun c hc => List.all_eq_true.1 hp c (List.mem_append.2 (l.mem_digits c hc))

/-- The digits spell the value of the literal. -/
theorem ofHexDigits_digits : Numeral.ofHexDigits l.digits = l.value := by
  have hvalue : l.digits.map Numeral.hexValue = l.digits.map fun c => hexDigits.idxOf c.toLower :=
    List.map_congr_left fun c hc => by
      simpa using l.all_digits (p := fun c => Numeral.hexValue c == hexDigits.idxOf c.toLower)
        (by decide) c hc
  rw [value, List.map_reverse, ← hvalue, Nat.ofDigits_eq_foldr, List.foldr_reverse, List.foldl_map,
    Numeral.ofHexDigits]
  congr 1
  funext n c
  simp only [Nat.cast_id]
  omega

/-- A literal in range is parsed to its value, any other is refused where it starts. -/
theorem parse_text {suffix : Option Char} (h : ∀ c ∈ suffix, c ∈ suffixes) :
    parse (String.ofList (l.text ++ suffix.toList)) =
      if hrange : l.value < 18446744073709551616 then
        .ok (.constant (.number (Decimal.ofWord l.value hrange)))
      else
        .error ⟨0, .hexTooLarge⟩ := by
  have hletter : ∀ c ∈ suffix.toList, (!Numeral.isHexDigit c) = true :=
    of_mem_suffix h (by decide)
  have hdigits : (l.digits ++ suffix.toList).takeWhile Numeral.isHexDigit = l.digits :=
    Token.takeWhile_append_of_all (List.all_eq_true.2 (l.all_digits (by decide)))
      fun c hc => by simpa using hletter c (List.mem_of_mem_head? hc)
  have hscan : Numeral.scanHex ['0', l.mark] (l.digits ++ suffix.toList) =
      if hrange : l.value < 18446744073709551616 then
        .ok (Decimal.ofWord l.value hrange, (l.text ++ suffix.toList).length)
      else
        .error .hexTooLarge := by
    have hempty : l.digits.isEmpty = false := List.isEmpty_eq_false_iff.2 l.digits_ne_nil
    unfold Numeral.scanHex
    dsimp only
    rw [hdigits, hempty, if_neg Bool.false_ne_true, List.drop_left,
      Numeral.literalLength_suffix _ (of_mem_suffix h (by decide))]
    simp only [l.ofHexDigits_digits]
    rfl
  have hmark : Numeral.scan (l.text ++ suffix.toList) =
      Numeral.scanHex ['0', l.mark] (l.digits ++ suffix.toList) := by
    have hcases := l.mark_mem
    simp only [List.mem_cons, List.not_mem_nil, or_false] at hcases
    rcases hcases with hx | hx
    · rw [text, hx]
      rfl
    · rw [text, hx]
      rfl
  have hstart : startsNumber (l.text ++ suffix.toList) = true := rfl
  rw [hscan] at hmark
  split
  · next hrange =>
    rw [dif_pos hrange] at hmark
    exact parse_of_scan hstart hmark
  · next hrange =>
    rw [dif_neg hrange] at hmark
    exact parse_of_scan_error hstart hmark

end HexLiteral

end Formula
