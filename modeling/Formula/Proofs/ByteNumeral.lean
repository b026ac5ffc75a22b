import Formula.Proofs.ByteLexer

set_option autoImplicit false

/-! # Numeric literals by their bytes

A numeral is made of ASCII characters, so it ends where the run of their bytes ends, and no byte of
a character that is not ASCII goes on with it. Its parts, its suffix and its value are those that
are cut off by characters. -/

namespace Formula.Bytes

open Token (Kind Fault byteLength byteLength_append)

variable {text : String} {i : Nat} {rest : List Char}

/-! ## Runs -/

/-- A run of ASCII characters ends where the run of their bytes does. -/
theorem runEnd_eq {p : Char → Bool} (hp : Ascii p) (h : At text i rest) :
    runEnd text p i = i + byteLength (rest.takeWhile p) := by
  induction rest generalizing i with
  | nil =>
    rw [runEnd, dif_neg (by simp [h.any_peek hp])]
    rfl
  | cons c rest ih =>
    rw [runEnd, List.takeWhile_cons]
    by_cases hc : p c = true
    · have hsize := utf8Size_ascii (hp c hc)
      rw [dif_pos (by simpa [h.any_peek hp] using hc), if_pos hc, ih (h.tail_ascii (hp c hc)),
        byteLength, hsize, Nat.add_assoc]
    · rw [dif_neg (by simpa [h.any_peek hp] using hc), if_neg hc]
      rfl

theorem isEmpty_takeWhile (p : Char → Bool) (cs : List Char) :
    (cs.takeWhile p).isEmpty = !cs.head?.any p := by
  cases cs with
  | nil => rfl
  | cons c cs => cases hc : p c <;> simp [hc]

/-! ## Decimal numerals -/

theorem pointEnd_eq (h : At text i rest) :
    pointEnd text i = i + byteLength (Numeral.pointPart rest) := by
  unfold pointEnd
  by_cases hpoint : rest.head? = some '.'
  · have hpeek := (h.peek_eq_some_iff (by decide)).2 hpoint
    obtain ⟨behind, rfl⟩ := List.head?_eq_some_iff.1 hpoint
    have hbehind : At text (i + 1) behind := h.tail
    cases hdigit : behind.head?.any Char.isDigit with
    | true =>
      have hpart : Numeral.pointPart ('.' :: behind) = '.' :: behind.takeWhile Char.isDigit := by
        simp [Numeral.pointPart, isEmpty_takeWhile, hdigit]
      rw [if_pos ⟨hpeek, (hbehind.any_peek ascii_isDigit).trans hdigit⟩, hpart,
        runEnd_eq ascii_isDigit hbehind, byteLength, Nat.add_assoc]
      rfl
    | false =>
      have hpart : Numeral.pointPart ('.' :: behind) = [] := by
        simp [Numeral.pointPart, isEmpty_takeWhile, hdigit]
      rw [if_neg (by simp [hbehind.any_peek ascii_isDigit, hdigit]), hpart]
      rfl
  · have hpeek := mt (h.peek_eq_some_iff (by decide)).1 hpoint
    have hpart : Numeral.pointPart rest = [] := by
      unfold Numeral.pointPart
      split
      · exact absurd rfl hpoint
      · rfl
    rw [if_neg (fun hand => hpeek hand.1), hpart]
    rfl

theorem ascii_isSign : Ascii isSign := ascii_or (ascii_eq (by decide)) (ascii_eq (by decide))

theorem length_signPart (cs : List Char) :
    (Numeral.signPart cs).length = if cs.head?.any isSign then 1 else 0 := by
  unfold Numeral.signPart
  split
  · rfl
  · rfl
  · next hplus hminus =>
    match cs with
    | [] => rfl
    | c :: cs =>
      have hsign : isSign c = false := by
        rw [isSign, Bool.or_eq_false_iff, beq_eq_false_iff_ne, beq_eq_false_iff_ne]
        exact ⟨fun hc => hplus cs (hc ▸ rfl), fun hc => hminus cs (hc ▸ rfl)⟩
      simp [hsign]

theorem byteLength_signPart (cs : List Char) :
    byteLength (Numeral.signPart cs) = (Numeral.signPart cs).length := by
  unfold Numeral.signPart
  split <;> rfl

theorem exponentEnd_eq (h : At text i rest) :
    exponentEnd text i = i + byteLength (Numeral.exponentPart rest) := by
  unfold exponentEnd
  match rest with
  | [] =>
    rw [if_neg (by simp [h.any_peek ascii_isExponentMark])]
    rfl
  | mark :: behind =>
    by_cases hmark : Decimal.isExponentMark mark = true
    · have hsize := utf8Size_ascii (ascii_isExponentMark mark hmark)
      have hbehind : At text (i + 1) behind := h.tail_ascii (ascii_isExponentMark mark hmark)
      have hnumber := hbehind.drop_isPrefix (Numeral.signPart_isPrefix behind)
      have hsign : (if (peek text (i + 1)).any isSign then 1 else 0) =
          byteLength (Numeral.signPart behind) := by
        rw [byteLength_signPart, length_signPart, hbehind.any_peek ascii_isSign]
      dsimp only
      rw [if_pos (by rw [h.any_peek ascii_isExponentMark]; exact hmark), hsign,
        hnumber.any_peek ascii_isDigit, runEnd_eq ascii_isDigit hnumber]
      simp only [Numeral.exponentPart, isEmpty_takeWhile, hmark, Bool.not_not, Bool.true_and]
      split
      · simp only [byteLength, byteLength_append, hsize, Nat.add_assoc]
      · rfl
    · have hpart : Numeral.exponentPart (mark :: behind) = [] := by
        simp [Numeral.exponentPart, hmark]
      rw [if_neg (by rw [h.any_peek ascii_isExponentMark]; exact hmark), hpart]
      rfl

theorem numeralEnd_eq (h : At text i rest) :
    numeralEnd text i = i + byteLength (Numeral.decimalPart rest) := by
  have hwhole := h.drop_isPrefix (List.takeWhile_prefix Char.isDigit)
  have hpoint := hwhole.drop_isPrefix (Numeral.pointPart_isPrefix _)
  rw [numeralEnd, runEnd_eq ascii_isDigit h, pointEnd_eq hwhole, exponentEnd_eq hpoint]
  simp only [Numeral.decimalPart, byteLength_append, Nat.add_assoc]

/-! ## Literals -/

/-- The answer of a scanner in places: the one behind what it takes of `text`,
    or the one of its error. -/
def placed {α : Type} (start : Nat) (text : List Char) :
    Except Fault (α × Nat) → Except ParseError (α × Nat)
  | .ok (a, n) => .ok (a, start + byteLength (text.take n))
  | .error fault => .error ⟨start + fault.offset, fault.cause⟩

theorem suffixEnd_eq (h : At text i rest) :
    (if (peek text i).any Numeral.isSuffix then i + 1 else i) =
      i + byteLength (Numeral.suffixPart rest) := by
  rw [h.any_peek ascii_isSuffix]
  match rest with
  | [] => rfl
  | c :: rest =>
    rw [List.head?_cons, Option.any_some, Numeral.suffixPart]
    by_cases hc : Numeral.isSuffix c = true
    · rw [if_pos hc, if_pos hc, byteLength, utf8Size_ascii (ascii_isSuffix c hc)]
      rfl
    · rw [if_neg hc, if_neg hc]
      rfl

theorem literalEnd_eq {start : Nat} {numeral : List Char} (h : At text start rest)
    (hnumeral : numeral <+: rest) :
    literalEnd text start (start + byteLength numeral) =
      .done (match Numeral.literalLength numeral (rest.drop numeral.length) with
        | .ok length => .ok (start + byteLength (rest.take length))
        | .error cause => .error ⟨start, cause⟩) := by
  have hstop := h.drop_isPrefix hnumeral
  have hsuffix := Numeral.suffixPart_isPrefix (rest.drop numeral.length)
  have hnext := hstop.drop_isPrefix hsuffix
  have hword : Ascii fun c => Numeral.isWordChar c || c == '.' :=
    ascii_or ascii_isWordChar (ascii_eq (by decide))
  unfold literalEnd
  dsimp only
  rw [Numeral.literalLength_ite, suffixEnd_eq hstop, hnext.any_peek ascii_isWordChar]
  split
  · -- the word is the numeral with its suffix and what follows them
    have hrun := Numeral.append_isPrefix hnumeral (Numeral.append_isPrefix hsuffix
      (List.takeWhile_prefix fun c => Numeral.isWordChar c || c == '.'))
    have hslice := h.slice?_isPrefix hrun
    rw [byteLength_append, byteLength_append, ← Nat.add_assoc, ← Nat.add_assoc] at hslice
    rw [runEnd_eq hword hnext, hslice]
    rfl
  · have htaken := List.prefix_iff_eq_take.1 (Numeral.append_isPrefix hnumeral hsuffix)
    rw [List.length_append] at htaken
    dsimp only
    rw [← htaken, byteLength_append, Nat.add_assoc]
    rfl

theorem decimal_eq {start : Nat} (h : At text start rest) :
    decimal text start =
      .done (placed start rest (Token.atStart ((Numeral.scanDecimal rest).map fun (value, length) =>
        (.number value, length)))) := by
  have hprefix := Numeral.decimalPart_isPrefix rest
  unfold decimal Numeral.scanDecimal
  dsimp only
  rw [numeralEnd_eq h, literalEnd_eq h hprefix, h.slice?_isPrefix hprefix]
  cases Numeral.literalLength (Numeral.decimalPart rest)
      (rest.drop (Numeral.decimalPart rest).length) with
  | error cause => rfl
  | ok length =>
    rw [Reading.done_ok_bind, Reading.lift_bind, String.toList_ofList]
    cases Decimal.readChars? (Numeral.decimalPart rest) <;> rfl

theorem hexadecimal_eq {start : Nat} {mark : Char} (hmark : mark.toNat < 128)
    (h : At text start ('0' :: mark :: rest)) :
    hexadecimal text start =
      .done (placed start ('0' :: mark :: rest)
        (Token.atStart ((Numeral.scanHex ['0', mark] rest).map
          fun (value, length) => (.number value, length)))) := by
  have hsize := utf8Size_ascii hmark
  have hbehind : At text (start + 2) rest := h.tail.tail_ascii hmark
  have hprefix := List.takeWhile_prefix Numeral.isHexDigit (l := rest)
  have hnumeral : '0' :: mark :: rest.takeWhile Numeral.isHexDigit <+: '0' :: mark :: rest :=
    (List.prefix_cons_inj '0').2 ((List.prefix_cons_inj mark).2 hprefix)
  have hstop : start + 2 + byteLength (rest.takeWhile Numeral.isHexDigit) =
      start + byteLength ('0' :: mark :: rest.takeWhile Numeral.isHexDigit) := by
    rw [byteLength, byteLength, hsize, utf8Size_ascii (by decide), ← Nat.add_assoc, ← Nat.add_assoc]
  have hempty : ∀ cs, (String.ofList cs).isEmpty = cs.isEmpty := by
    intro cs
    rw [Bool.eq_iff_iff, String.isEmpty_iff, List.isEmpty_iff, ← String.toList_inj,
      String.toList_ofList]
    rfl
  unfold hexadecimal Numeral.scanHex
  dsimp only
  rw [runEnd_eq ascii_isHexDigit hbehind, hbehind.slice?_isPrefix hprefix, Reading.lift_bind,
    hempty, hstop, literalEnd_eq h hnumeral]
  generalize rest.takeWhile Numeral.isHexDigit = digits
  by_cases hdigits : digits.isEmpty = true
  · rw [if_pos hdigits, if_pos hdigits]
    rfl
  · rw [if_neg hdigits, if_neg hdigits]
    have hdrop :
        ('0' :: mark :: rest).drop ('0' :: mark :: digits).length = rest.drop digits.length :=
      rfl
    rw [hdrop, List.cons_append, List.cons_append, List.nil_append]
    cases Numeral.literalLength ('0' :: mark :: digits) (rest.drop digits.length) with
    | error cause => rfl
    | ok length =>
      simp only [String.toList_ofList]
      by_cases hn : Numeral.ofHexDigits digits < 18446744073709551616
      · simp only [hn, dite_true]
        rfl
      · simp only [hn, dite_false]
        rfl

/-- The mark of a hexadecimal literal, by its bytes. -/
theorem peek_hexMark (h : At text i rest) :
    (peek text i = some '0' ∧ (peek text (i + 1)).any (fun c => c == 'x' || c == 'X')) ↔
      ∃ mark behind, (mark = 'x' ∨ mark = 'X') ∧ rest = '0' :: mark :: behind := by
  have hclass : Ascii fun c => c == 'x' || c == 'X' :=
    ascii_or (ascii_eq (by decide)) (ascii_eq (by decide))
  constructor
  · rintro ⟨hzero, hmark⟩
    obtain ⟨behind, rfl⟩ := List.head?_eq_some_iff.1 ((h.peek_eq_some_iff (by decide)).1 hzero)
    have hbehind : At text (i + 1) behind := h.tail
    rw [hbehind.any_peek hclass] at hmark
    obtain ⟨mark, hhead, hmark⟩ := (Option.any_eq_true _ _).1 hmark
    obtain ⟨tail, rfl⟩ := List.head?_eq_some_iff.1 hhead
    exact ⟨mark, tail, by simpa using hmark, rfl⟩
  · rintro ⟨mark, behind, hmark, rfl⟩
    have hbehind : At text (i + 1) (mark :: behind) := h.tail
    rw [h.peek_eq_some_iff (by decide), hbehind.any_peek hclass]
    exact ⟨rfl, by simpa using hmark⟩

/-- **A numeric literal by its bytes is the one by its characters.** -/
theorem number_eq {start : Nat} (h : At text start rest) :
    number text start =
      .done (placed start rest (Token.atStart ((Numeral.scan rest).map fun (value, length) =>
        (.number value, length)))) := by
  unfold number
  by_cases hhex : ∃ mark behind, (mark = 'x' ∨ mark = 'X') ∧ rest = '0' :: mark :: behind
  · rw [if_pos ((peek_hexMark h).2 hhex)]
    obtain ⟨mark, behind, rfl | rfl, rfl⟩ := hhex
    · exact hexadecimal_eq (by decide) h
    · exact hexadecimal_eq (by decide) h
  · rw [if_neg (mt (peek_hexMark h).1 hhex), decimal_eq h]
    unfold Numeral.scan
    split
    · next behind => exact absurd ⟨'x', behind, .inl rfl, rfl⟩ hhex
    · next behind => exact absurd ⟨'X', behind, .inr rfl, rfl⟩ hhex
    · rfl

end Formula.Bytes
