import Formula.Proofs.Strictness
import Formula.Value.Convert

set_option autoImplicit false

/-! # Strings as numbers

A string that holds a decimal literal, with or without a sign and with white space around, converts
to the number that the literal is for the lexer. Of the other strings only those convert that are
not strict: they have a `_`, a point without a digit behind it, or an exponent with two signs. -/

namespace Formula

/-! ## Literals behind a sign -/

namespace Sign

variable (sign : Sign)

theorem apply_mul (a b : ℚ) : sign.apply (a * b) = sign.apply a * b := by
  cases sign <;> simp [apply]

end Sign

namespace DecimalLiteral

variable (l : DecimalLiteral) {sign other : Sign} {d w : Decimal}

/-- The digits are read alike behind all signs. -/
theorem exists_readBase?_sign (other : Sign) (h : l.readBase? sign = some d) :
    ∃ e, l.readBase? other = some e ∧ e.mantissa = d.mantissa ∧ e.scale = d.scale := by
  obtain ⟨⟨mantissa, scale⟩, hdigits, hd⟩ := Option.bind_eq_some_iff.1 h
  obtain ⟨-, hmantissa, hscale⟩ := Decimal.ofResult?_eq_some hd
  obtain ⟨e, he⟩ : ∃ e, Decimal.ofResult? other.isMinus mantissa scale = some e :=
    Decimal.exists_ofParts? (hmantissa ▸ d.mantissa_lt) (hscale ▸ d.scale_le)
  obtain ⟨-, hmantissa', hscale'⟩ := Decimal.ofResult?_eq_some he
  exact ⟨e, Option.bind_eq_some_iff.2 ⟨_, hdigits, he⟩, hmantissa'.trans hmantissa.symm,
    hscale'.trans hscale.symm⟩

/-- Whether a literal is read does not depend on the sign in front of it. -/
theorem exists_readChars?_sign (sign other : Sign)
    (h : Decimal.readChars? (sign.text ++ l.text) = some d) :
    ∃ e, Decimal.readChars? (other.text ++ l.text) = some e := by
  rw [l.readChars?_text] at h ⊢
  obtain ⟨base, hbase, hshift⟩ := Option.bind_eq_some_iff.1 h
  obtain ⟨base', hbase', hmantissa, hscale⟩ := l.exists_readBase?_sign other hbase
  have hroom : ∃ e, l.shift? base' = some e := by
    cases hexponent : l.exponent with
    | none => exact ⟨base', by rw [l.shift?_of_none hexponent]⟩
    | some x =>
      have habs : |base'.value| = |base.value| := by
        rw [Decimal.abs_value, Decimal.abs_value, hmantissa, hscale]
      rw [l.exists_shift?_iff hexponent, hscale, habs, ← l.exists_shift?_iff hexponent]
      exact ⟨d, hshift⟩
  obtain ⟨e, he⟩ := hroom
  exact ⟨e, Option.bind_eq_some_iff.2 ⟨base', hbase', he⟩⟩

/-- A minus in front of a literal negates its value. -/
theorem value_of_readChars?_sign (h : Decimal.readChars? (sign.text ++ l.text) = some d)
    (hw : Decimal.readChars? l.text = some w) : d.value = sign.apply w.value := by
  rw [l.readChars?_text] at h
  rw [l.readChars?_unsigned] at hw
  obtain ⟨base, hbase, hshift⟩ := Option.bind_eq_some_iff.1 h
  obtain ⟨base', hbase', hshift'⟩ := Option.bind_eq_some_iff.1 hw
  obtain ⟨hdigits, hvalue⟩ := l.readBase?_eq_some hbase
  obtain ⟨hdigits', hvalue'⟩ := l.readBase?_eq_some hbase'
  obtain ⟨hmantissa, hscale⟩ := Prod.mk.inj (Option.some.inj (hdigits.symm.trans hdigits'))
  rw [l.value_of_shift? hshift, l.value_of_shift? hshift', sign.apply_mul, hvalue, hvalue',
    hmantissa, hscale]
  rfl

end DecimalLiteral

/-! ## White space -/

theorem isWhiteSpace_of_isDigit {c : Char} (h : c.isDigit = true) : isWhiteSpace c = false := by
  simp only [Char.isDigit, Bool.and_eq_true, decide_eq_true_eq, UInt32.le_iff_toNat_le] at h
  have hlow : 48 ≤ c.toNat := h.1
  have hhigh : c.toNat ≤ 57 := h.2
  simp only [isWhiteSpace, Bool.or_eq_false_iff, Bool.and_eq_false_iff, decide_eq_false_iff_not,
    beq_eq_false_iff_ne]
  omega

theorem DecimalLiteral.not_isWhiteSpace (l : DecimalLiteral) (sign : Sign) :
    ∀ c ∈ sign.text ++ l.text, isWhiteSpace c = false := by
  intro c hc
  have hmark : c.isDigit = true ∨ c ∈ ['.', 'e', 'E', '+', '-'] := by
    rcases List.mem_append.1 hc with hc | hc
    · right
      cases sign <;> simp_all [Sign.text]
    · exact l.mem_text hc
  rcases hmark with hdigit | hmark
  · exact isWhiteSpace_of_isDigit hdigit
  · simpa using List.all_eq_true.1
      (by decide : ['.', 'e', 'E', '+', '-'].all (fun c => !isWhiteSpace c) = true) c hmark

theorem dropWhile_isWhiteSpace {front rest : List Char}
    (hfront : ∀ c ∈ front, isWhiteSpace c = true)
    (hrest : ∀ c ∈ rest.head?, isWhiteSpace c = false) :
    (front ++ rest).dropWhile isWhiteSpace = rest := by
  rw [List.dropWhile_append_of_pos hfront]
  cases rest with
  | nil => rfl
  | cons c rest => exact List.dropWhile_cons_of_neg (by simp [hrest c rfl])

/-- White space around a text without any is trimmed. -/
theorem trim_append {before text after : List Char} (hbefore : ∀ c ∈ before, isWhiteSpace c = true)
    (hafter : ∀ c ∈ after, isWhiteSpace c = true) (htext : ∀ c ∈ text, isWhiteSpace c = false)
    (hne : text ≠ []) : trim (before ++ (text ++ after)) = text := by
  have hfirst : ∀ c ∈ (text ++ after).head?, isWhiteSpace c = false := by
    intro c hc
    rw [List.head?_append_of_ne_nil text hne] at hc
    exact htext c (List.mem_of_mem_head? hc)
  have hlast : ∀ c ∈ text.reverse.head?, isWhiteSpace c = false := fun c hc =>
    htext c (List.mem_reverse.1 (List.mem_of_mem_head? hc))
  rw [trim, dropWhile_isWhiteSpace hbefore hfirst, List.reverse_append,
    dropWhile_isWhiteSpace (by simpa using hafter) hlast, List.reverse_reverse]

/-- What is trimmed is white space. -/
theorem exists_trim (text : List Char) :
    ∃ before after, text = before ++ (trim text ++ after) ∧
      ∀ c ∈ before ++ after, isWhiteSpace c = true := by
  refine ⟨text.takeWhile isWhiteSpace,
    ((text.dropWhile isWhiteSpace).reverse.takeWhile isWhiteSpace).reverse, ?_, ?_⟩
  · rw [trim, ← List.reverse_append, List.takeWhile_append_dropWhile, List.reverse_reverse,
      List.takeWhile_append_dropWhile]
  · intro c hc
    rw [List.mem_append, List.mem_reverse] at hc
    exact hc.elim List.mem_takeWhile_imp List.mem_takeWhile_imp

/-! ## Literals of the lexer -/

/-- The lexer reads the text as this number: one decimal literal, without a letter behind it. -/
def ReadsAlone (text : List Char) (value : Decimal) : Prop :=
  Token.tokenize (String.ofList text) = .ok [⟨.number value, 0⟩] ∧ Numeral.decimalPart text = text

namespace Numeral

theorem exists_pointPart (text : List Char) :
    ∃ fraction, (∀ c ∈ fraction, c.isDigit = true) ∧
      pointPart text = if fraction = [] then [] else '.' :: fraction := by
  unfold pointPart
  split
  · next rest =>
    refine ⟨rest.takeWhile Char.isDigit, fun c hc => List.mem_takeWhile_imp hc, ?_⟩
    simp
  · exact ⟨[], by simp, rfl⟩

theorem exists_signPart (text : List Char) : ∃ sign : Sign, signPart text = sign.text := by
  unfold signPart
  split
  · exact ⟨.plus, rfl⟩
  · exact ⟨.minus, rfl⟩
  · exact ⟨.absent, rfl⟩

theorem exists_exponentPart (text : List Char) :
    ∃ exponent : Option Exponent, exponentPart text = (exponent.map Exponent.text).getD [] := by
  match text with
  | [] => exact ⟨none, rfl⟩
  | mark :: rest =>
    obtain ⟨sign, hsign⟩ := exists_signPart rest
    rw [exponentPart, hsign]
    split
    · next hguard =>
      rw [Bool.and_eq_true, Bool.not_eq_true', List.isEmpty_eq_false_iff] at hguard
      exact ⟨some ⟨mark, sign, _, hguard.1, fun c hc => List.mem_takeWhile_imp hc, hguard.2⟩, rfl⟩
    · exact ⟨none, rfl⟩

/-- Of a hexadecimal literal only the zero is a decimal numeral. -/
theorem decimalPart_hex {mark : Char} (h : mark ∈ ['x', 'X']) (text : List Char) :
    decimalPart ('0' :: mark :: text) = ['0'] := by
  simp only [List.mem_cons, List.not_mem_nil, or_false] at h
  rcases h with rfl | rfl <;> rfl

/-- Without digits in front an exponent is not read. -/
theorem readChars?_exponent (exponent : Option Exponent) :
    Decimal.readChars? ((exponent.map Exponent.text).getD []) = none := by
  match exponent with
  | none => rfl
  | some x =>
    rw [Option.map_some, Option.getD_some, Exponent.text]
    rcases eq_of_isExponentMark x.isExponentMark_mark with hmark | hmark <;> rw [hmark] <;> rfl

/-- A numeral that is read is a literal. -/
theorem exists_text_of_decimalPart {text : List Char} {value : Decimal}
    (hpart : decimalPart text = text) (hread : Decimal.readChars? text = some value) :
    ∃ l : DecimalLiteral, l.text = text := by
  obtain ⟨fraction, hfraction, hpoint⟩ := exists_pointPart
    (text.drop (text.takeWhile Char.isDigit).length)
  obtain ⟨exponent, hexponent⟩ := exists_exponentPart
    ((text.drop (text.takeWhile Char.isDigit).length).drop
      (pointPart (text.drop (text.takeWhile Char.isDigit).length)).length)
  have htext : text = text.takeWhile Char.isDigit ++
      ((if fraction = [] then [] else '.' :: fraction) ++
        (exponent.map Exponent.text).getD []) := by
    rw [← hpoint, ← hexponent]
    exact hpart.symm
  have hdigits : text.takeWhile Char.isDigit ++ fraction ≠ [] := by
    intro hnil
    obtain ⟨hwhole, rfl⟩ := List.append_eq_nil_iff.1 hnil
    rw [hwhole, if_pos rfl, List.nil_append, List.nil_append] at htext
    rw [htext, readChars?_exponent] at hread
    cases hread
  refine ⟨⟨_, fraction, exponent, fun c hc => List.mem_takeWhile_imp hc, hfraction, hdigits⟩, ?_⟩
  rw [DecimalLiteral.text, DecimalLiteral.base, List.append_assoc]
  exact htext.symm

end Numeral

/-- The lexer reads the literals, and each as the number that is read of its text. -/
theorem readsAlone_iff {text : List Char} {value : Decimal} :
    ReadsAlone text value ↔
      ∃ l : DecimalLiteral, l.text = text ∧ Decimal.readChars? text = some value := by
  constructor
  · rintro ⟨htokens, hpart⟩
    rw [Token.tokenize, String.toList_ofList] at htokens
    obtain ⟨c, rest, rfl, hblank⟩ := Token.exists_first htokens
    obtain ⟨kind, n, others, hscan, -, hfirst⟩ := (Token.lex_cons_eq_ok_iff hblank).1 htokens
    obtain ⟨hkind, rfl⟩ := List.cons.inj hfirst
    obtain rfl : .number value = kind := congrArg Token.kind hkind
    obtain ⟨found, length, hfound, hvalue, -⟩ :=
      Token.scanNumber_eq_ok_iff.1 (Token.scanNumber_of_scan hscan)
    obtain rfl : value = found := by simpa using hvalue
    have hread : Decimal.readChars? (c :: rest) = some value := by
      unfold Numeral.scan at hfound
      split at hfound
      · next heq =>
        rw [heq, Numeral.decimalPart_hex (by simp)] at hpart
        cases hpart
      · next heq =>
        rw [heq, Numeral.decimalPart_hex (by simp)] at hpart
        cases hpart
      · rw [Numeral.scanDecimal_eq_ok_iff, hpart] at hfound
        exact hfound.2
    obtain ⟨l, hl⟩ := Numeral.exists_text_of_decimalPart hpart hread
    exact ⟨l, hl, hread⟩
  · rintro ⟨l, rfl, hread⟩
    have hnone : ∀ c ∈ (none : Option Char), c ∈ DecimalLiteral.suffixes := by simp
    have hscan := l.scan_text_suffix hnone
    have hpart := l.decimalPart_text endsNumeral_nil
    have hstart := l.startsNumber_text []
    rw [hread, Option.toList_none] at hscan
    rw [List.append_nil] at hscan hpart hstart
    exact ⟨tokenize_of_scan hstart hscan, hpart⟩

/-! ## Literals with white space around -/

/-- The text is a decimal literal of this value behind a sign, with nothing but
    white space around. -/
def Spells (text : List Char) (sign : Sign) (value : Decimal) : Prop :=
  ∃ before literal after, text = before ++ (sign.text ++ literal ++ after) ∧
    (∀ c ∈ before ++ after, isWhiteSpace c = true) ∧ ReadsAlone literal value

variable {text : List Char} {sign : Sign} {value : Decimal}

/-- What is left when the white space is trimmed is a literal behind a sign. -/
theorem spells_iff : Spells text sign value ↔
    ∃ l : DecimalLiteral, trim text = sign.text ++ l.text ∧
      Decimal.readChars? l.text = some value := by
  constructor
  · rintro ⟨before, literal, after, rfl, hwhite, halone⟩
    obtain ⟨l, rfl, hread⟩ := readsAlone_iff.1 halone
    have hne : sign.text ++ l.text ≠ [] := by
      intro hnil
      rw [(List.append_eq_nil_iff.1 hnil).2] at hread
      cases hread
    exact ⟨l, trim_append (fun c hc => hwhite c (List.mem_append_left after hc))
      (fun c hc => hwhite c (List.mem_append_right before hc)) (l.not_isWhiteSpace sign) hne, hread⟩
  · rintro ⟨l, htrim, hread⟩
    obtain ⟨before, after, htext, hwhite⟩ := exists_trim text
    exact ⟨before, l.text, after, htrim ▸ htext, hwhite, readsAlone_iff.2 ⟨l, rfl, hread⟩⟩

/-- White space around a text makes no difference to strictness. -/
theorem isStrict_trim (text : List Char) :
    Decimal.isStrict (trim text) = Decimal.isStrict text := by
  obtain ⟨before, after, htext, hwhite⟩ := exists_trim text
  have hother : ∀ c ∈ before ++ after, c ∉ ['_', '.', '-', '+'] := fun c hc =>
    Token.not_mem_of_class (hwhite c hc) (by decide)
  have hmarks {white : List Char} (h : ∀ c ∈ white, c ∈ before ++ after) (rest : List Char) :
      Decimal.isStrict (white ++ rest) = Decimal.isStrict rest :=
    Decimal.isStrict_append_of_all (fun c hc hmem => hother c (h c hc) (by simp_all)) rest
  have hafter : Decimal.isStrict after = true := by
    simpa [Decimal.isStrict] using hmarks (fun c hc => List.mem_append_right before hc) []
  have hhead : ∀ c ∈ after.head?, c.isDigit = false ∧ c ≠ '+' := by
    intro c hc
    have hmem := List.mem_append_right before (List.mem_of_mem_head? hc)
    refine ⟨Bool.eq_false_iff.2 fun hdigit => ?_, fun hplus => hother c hmem (by simp [hplus])⟩
    exact Bool.false_ne_true ((isWhiteSpace_of_isDigit hdigit).symm.trans (hwhite c hmem))
  conv_rhs => rw [htext]
  rw [hmarks (fun c hc => List.mem_append_left after hc), Bool.eq_iff_iff,
    Decimal.isStrict_append_iff hhead]
  simp [hafter]

theorem isStrict_of_spells (h : Spells text sign value) : Decimal.isStrict text = true := by
  obtain ⟨l, htrim, -⟩ := spells_iff.1 h
  rw [← isStrict_trim, htrim]
  exact l.isStrict_text sign

/-! ## Conversion -/

namespace Value

theorem toDecimal_string_eq (s : String) :
    (Value.string s).toDecimal =
      match Decimal.readChars? (trim s.toList) with
      | some d => .ok d
      | none => .error (.coercion (.string s) .number) :=
  rfl

theorem toDecimal_string_eq_ok_iff {s : String} {d : Decimal} :
    (Value.string s).toDecimal = .ok d ↔ Decimal.readChars? (trim s.toList) = some d := by
  rw [toDecimal_string_eq]
  cases Decimal.readChars? (trim s.toList) <;> simp

/-- A string that holds a literal converts to its value, with a minus to the opposite; of the others
    only such convert that are not strict, and whatever does not convert is reported as it is. -/
theorem toDecimal_string (s : String) :
    (∀ sign value, Spells s.toList sign value →
      ∃ d, (Value.string s).toDecimal = .ok d ∧ d.value = sign.apply value.value) ∧
    (∀ d, (Value.string s).toDecimal = .ok d →
      ((∃ sign value, Spells s.toList sign value) ↔ Decimal.isStrict s.toList = true)) ∧
    ∀ e, (Value.string s).toDecimal = .error e → e = .coercion (.string s) .number := by
  refine ⟨fun sign value h => ?_, fun d h => ⟨?_, fun hstrict => ?_⟩, fun e h => ?_⟩
  · obtain ⟨l, htrim, hread⟩ := spells_iff.1 h
    obtain ⟨d, hd⟩ := l.exists_readChars?_sign .absent sign hread
    exact ⟨d, toDecimal_string_eq_ok_iff.2 (htrim ▸ hd), l.value_of_readChars?_sign hd hread⟩
  · rintro ⟨sign, value, hspells⟩
    exact isStrict_of_spells hspells
  · rw [toDecimal_string_eq_ok_iff] at h
    rw [← isStrict_trim] at hstrict
    obtain ⟨sign, l, htrim⟩ := DecimalLiteral.exists_sign_text h hstrict
    rw [htrim] at h
    obtain ⟨value, hread⟩ := l.exists_readChars?_sign sign .absent h
    exact ⟨sign, value, spells_iff.2 ⟨l, htrim, hread⟩⟩
  · rw [toDecimal_string_eq] at h
    split at h
    · cases h
    · exact (Except.error.inj h).symm

theorem toDecimal_string_padded :
    ∃ d, (Value.string " -12.50e-3\n").toDecimal = .ok d ∧ d.value = -(1 / 80) := by
  have hread : Decimal.readChars? DecimalLiteral.thousandths.text =
      some ⟨false, 1250, 5, by decide, by decide⟩ := by
    decide +kernel
  have hspells : Spells " -12.50e-3\n".toList .minus ⟨false, 1250, 5, by decide, by decide⟩ :=
    ⟨[' '], DecimalLiteral.thousandths.text, ['\n'], rfl, List.all_eq_true.1 rfl,
      readsAlone_iff.2 ⟨.thousandths, rfl, hread⟩⟩
  obtain ⟨d, hd, hvalue⟩ := (toDecimal_string _).1 _ _ hspells
  refine ⟨d, hd, hvalue.trans ?_⟩
  rw [Decimal.value_of_unsigned rfl, Sign.apply]
  norm_num

/-- Strings that are not literals and convert all the same: a point alone, a point without a digit
    behind it, digits with a `_` between them, and an exponent with two signs. -/
theorem toDecimal_string_lenient :
    ((string ".").toDecimal = .ok .zero ∧ ¬ ∃ sign value, Spells ".".toList sign value) ∧
      ((string "5.").toDecimal = .ok ⟨false, 5, 0, by decide, by decide⟩ ∧
        ¬ ∃ sign value, Spells "5.".toList sign value) ∧
      ((string "1_0").toDecimal = .ok ⟨false, 10, 0, by decide, by decide⟩ ∧
        ¬ ∃ sign value, Spells "1_0".toList sign value) ∧
      (string "1e-+5").toDecimal = .ok ⟨false, 1, 5, by decide, by decide⟩ ∧
        ¬ ∃ sign value, Spells "1e-+5".toList sign value := by
  have hnot (s : String) (h : Decimal.isStrict s.toList = false) :
      ¬ ∃ sign value, Spells s.toList sign value := by
    rintro ⟨sign, value, hspells⟩
    rw [isStrict_of_spells hspells] at h
    cases h
  exact ⟨⟨by decide +kernel, hnot _ (by decide)⟩, ⟨by decide +kernel, hnot _ (by decide)⟩,
    ⟨by decide +kernel, hnot _ (by decide)⟩, by decide +kernel, hnot _ (by decide)⟩

end Value

end Formula
