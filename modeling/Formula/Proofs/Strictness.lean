import Formula.Proofs.Exactness

set_option autoImplicit false

/-! # Texts that are read as numbers

The reader of numbers is more lenient than the grammar of literals. It passes over a `_`
between digits, does without digits behind the point, and lets a plus follow the minus of
an exponent. A text that makes use of none of this is read only if it is a literal, with
or without a sign in front. -/

namespace Formula

namespace Decimal

/-! ## Strict texts -/

/-- Whether a text makes no use of what the reader allows beyond literals: there is no `_`, a digit
    behind every point, and no plus behind a minus. -/
def isStrict : List Char → Bool
  | [] => true
  | c :: rest =>
    c != '_' && (c != '.' || rest.head?.any Char.isDigit) && (c != '-' || rest.head? != some '+') &&
      isStrict rest

variable {front rest text : List Char} {c : Char}

theorem isStrict_cons_iff : isStrict (c :: rest) = true ↔
    c ≠ '_' ∧ (c = '.' → ∃ d ∈ rest.head?, d.isDigit = true) ∧ (c = '-' → rest.head? ≠ some '+') ∧
      isStrict rest = true := by
  simp only [isStrict, Bool.and_eq_true, Bool.or_eq_true, bne_iff_ne, Option.any_eq_true, and_assoc]
  tauto

/-- Characters of other classes make no difference to strictness. -/
theorem isStrict_append_of_all (h : ∀ c ∈ front, c ∉ ['_', '.', '-']) (rest : List Char) :
    isStrict (front ++ rest) = isStrict rest := by
  induction front with
  | nil => rfl
  | cons c front ih =>
    obtain ⟨hc, hfront⟩ := List.forall_mem_cons.1 h
    simp only [List.mem_cons, List.not_mem_nil, or_false, not_or] at hc
    rw [List.cons_append, ← ih hfront, Bool.eq_iff_iff, isStrict_cons_iff]
    tauto

theorem isStrict_digits (h : ∀ c ∈ front, c.isDigit = true) (rest : List Char) :
    isStrict (front ++ rest) = isStrict rest :=
  isStrict_append_of_all (fun c hc => Token.not_mem_of_class (h c hc) (by decide)) rest

theorem ne_of_isStrict (h : isStrict text = true) : ∀ c ∈ text, c ≠ '_' := by
  induction text with
  | nil => simp
  | cons c text ih =>
    obtain ⟨hline, -, -, hrest⟩ := isStrict_cons_iff.1 h
    exact List.forall_mem_cons.2 ⟨hline, ih hrest⟩

/-- A text can be cut in front of a character that is neither a digit nor a plus. -/
theorem isStrict_append_iff (h : ∀ c ∈ rest.head?, c.isDigit = false ∧ c ≠ '+') :
    isStrict (front ++ rest) = true ↔ isStrict front = true ∧ isStrict rest = true := by
  induction front with
  | nil => simp [isStrict]
  | cons c front ih =>
    rw [List.cons_append, isStrict_cons_iff, isStrict_cons_iff, ih]
    cases front with
    | cons d front => simp only [List.cons_append, List.head?_cons]; tauto
    | nil =>
      have hdigit : ¬ ∃ d ∈ rest.head?, d.isDigit = true := by
        rintro ⟨d, hd, hdigit⟩
        rw [(h d hd).1] at hdigit
        cases hdigit
      have hplus : rest.head? ≠ some '+' := fun hplus => (h '+' hplus).2 rfl
      rw [List.nil_append, List.head?_nil]
      simp only [hdigit, hplus, isStrict, Option.not_mem_none, false_and, exists_false, imp_false,
        ne_eq, reduceCtorEq, not_false_eq_true, implies_true, true_and, and_true]
      tauto

theorem not_digit_of_isExponentMark (h : isExponentMark c = true) :
    c.isDigit = false ∧ c ≠ '+' := by
  rcases eq_of_isExponentMark h with rfl | rfl <;> decide

/-! ## What is read as digits -/

theorem isDigit_of_roundOff {mantissa scale : Nat} {tail : List Char} {found : Nat × Nat}
    (h : roundOff mantissa scale c tail = some found) (hline : ∀ d ∈ c :: tail, d ≠ '_') :
    ∀ d ∈ c :: tail, d.isDigit = true := by
  unfold roundOff at h
  split at h
  · cases h
  · next hguard =>
    simp only [Bool.or_eq_true, Bool.not_eq_true', not_or, Bool.not_eq_false, List.all_eq_true,
      beq_iff_eq] at hguard
    obtain ⟨hc, htail⟩ := List.forall_mem_cons.1 hline
    exact List.forall_mem_cons.2
      ⟨hguard.1.resolve_right hc, fun d hd => (hguard.2 d hd).resolve_right (htail d hd)⟩

theorem isDigit_of_roundFull {wide : Bool} {mantissa scale : Nat} {found : Nat × Nat}
    (h : roundFull wide mantissa scale rest = some found) (hline : ∀ c ∈ rest, c ≠ '_') :
    ∀ d ∈ rest, d.isDigit = true := by
  have hnone : rest.dropWhile (· == '_') = rest := by
    cases rest with
    | nil => rfl
    | cons c tail =>
      exact List.dropWhile_cons_of_neg (by simpa using (List.forall_mem_cons.1 hline).1)
  rw [roundFull, hnone, ite_self] at h
  cases rest with
  | nil => simp
  | cons c tail => exact isDigit_of_roundOff h hline

/-- Behind the point only digits are read. -/
theorem isDigit_of_readDigits {r : Reading} {found : Nat × Nat} (hpoint : r.point = true)
    (h : readDigits r text = some found) (hline : ∀ c ∈ text, c ≠ '_') :
    ∀ d ∈ text, d.isDigit = true := by
  induction text generalizing r with
  | nil => simp
  | cons c rest ih =>
    obtain ⟨hne, hrest⟩ := List.forall_mem_cons.1 hline
    rw [readDigits] at h
    split at h
    · next hc =>
      dsimp only at h
      refine List.forall_mem_cons.2 ⟨hc, ?_⟩
      split at h
      · exact (List.forall_mem_cons.1 (isDigit_of_roundOff h hline)).2
      · split at h
        · exact isDigit_of_roundFull h hrest
        · exact ih
            (r := { r.push c with wide := r.wide || decide (wideFrom ≤ (r.push c).mantissa) })
            hpoint h hrest
    · simp [hpoint, hne] at h

/-- In front of the point only digits are read. -/
theorem exists_whole_of_readDigits {r : Reading} {found : Nat × Nat} (hpoint : r.point = false)
    (h : readDigits r text = some found) (hline : ∀ c ∈ text, c ≠ '_') :
    ∃ whole, (∀ c ∈ whole, c.isDigit = true) ∧
      (text = whole ∨ ∃ fraction, text = whole ++ '.' :: fraction ∧
        ∀ c ∈ fraction, c.isDigit = true) := by
  induction text generalizing r with
  | nil => exact ⟨[], by simp, .inl rfl⟩
  | cons c rest ih =>
    obtain ⟨hne, hrest⟩ := List.forall_mem_cons.1 hline
    rw [readDigits] at h
    split at h
    · next hc =>
      dsimp only at h
      split at h
      · simp [hpoint] at h
      · have hfull : ¬ ((r.push c).point && (r.push c).scale == maxScale) = true := by
          simp [Reading.push, hpoint]
        rw [if_neg hfull] at h
        obtain ⟨whole, hwhole, hsplit⟩ :=
          ih (r := { r.push c with wide := r.wide || decide (wideFrom ≤ (r.push c).mantissa) })
            hpoint h hrest
        refine ⟨c :: whole, List.forall_mem_cons.2 ⟨hc, hwhole⟩, ?_⟩
        rcases hsplit with rfl | ⟨fraction, rfl, hfraction⟩
        · exact .inl rfl
        · exact .inr ⟨fraction, rfl, hfraction⟩
    · split at h
      · next hc =>
        obtain ⟨hc, -⟩ := Bool.and_eq_true_iff.1 hc
        obtain rfl := eq_of_beq hc
        exact ⟨[], by simp, .inr ⟨rest, rfl, isDigit_of_readDigits rfl h hrest⟩⟩
      · simp [hne] at h

end Decimal

namespace DecimalLiteral

open Decimal

variable {text : List Char}

theorem exists_splitSign (text : List Char) :
    ∃ (sign : Sign) (rest : List Char), text = sign.text ++ rest ∧
      splitSign text = (sign.isMinus, rest) := by
  unfold splitSign
  split
  · exact ⟨.minus, _, rfl, rfl⟩
  · exact ⟨.plus, _, rfl, rfl⟩
  · exact ⟨.absent, _, rfl, rfl⟩

theorem isStrict_of_sign {sign : Sign} (h : isStrict (sign.text ++ text) = true) :
    isStrict text = true := by
  cases sign with
  | absent => exact h
  | plus => exact (isStrict_cons_iff.1 h).2.2.2
  | minus => exact (isStrict_cons_iff.1 h).2.2.2

/-- A strict text that is read as digits is a literal without an exponent. -/
theorem exists_base {found : Nat × Nat} (h : readDigits {} text = some found)
    (hstrict : isStrict text = true) : ∃ l : DecimalLiteral, l.base = text := by
  obtain ⟨whole, hwhole, hsplit⟩ := exists_whole_of_readDigits rfl h (ne_of_isStrict hstrict)
  rcases hsplit with rfl | ⟨fraction, rfl, hfraction⟩
  · refine ⟨⟨text, [], none, hwhole, by simp, ?_⟩, by simp [base, pointText]⟩
    rintro hnil
    rw [List.append_nil] at hnil
    rw [hnil] at h
    cases h
  · rw [isStrict_digits hwhole, isStrict_cons_iff] at hstrict
    have hne : fraction ≠ [] := by
      obtain ⟨d, hd, -⟩ := hstrict.2.1 rfl
      rintro rfl
      cases hd
    exact ⟨⟨whole, fraction, none, hwhole, hfraction, by simp [hne]⟩,
      by simp [base, pointText, hne]⟩

/-- A strict text that is read without an exponent is a literal without one, behind a sign. -/
theorem exists_sign_base {d : Decimal} (h : readPlain? text = some d)
    (hstrict : isStrict text = true) :
    ∃ (sign : Sign) (l : DecimalLiteral), text = sign.text ++ l.base := by
  obtain ⟨sign, rest, rfl, hsign⟩ := exists_splitSign text
  rw [readPlain?, hsign] at h
  obtain ⟨found, hdigits, -⟩ := Option.bind_eq_some_iff.1 h
  obtain ⟨l, rfl⟩ := exists_base hdigits (isStrict_of_sign hstrict)
  exact ⟨sign, l, rfl⟩

/-- A strict text that is read as an exponent is digits behind a sign. -/
theorem exists_sign_digits {found : Bool × Nat} (h : readExponent? text = some found)
    (hstrict : isStrict text = true) :
    ∃ (sign : Sign) (digits : List Char), text = sign.text ++ digits ∧ digits ≠ [] ∧
      ∀ c ∈ digits, c.isDigit = true := by
  cases text with
  | nil => simp [readExponent?] at h
  | cons c rest =>
    by_cases hplus : c = '+'
    · subst hplus
      simp only [readExponent?, Option.ite_none_left_eq_some, Bool.or_eq_true, not_or,
        List.isEmpty_iff, Bool.not_eq_true', Bool.not_eq_false, List.all_eq_true] at h
      exact ⟨.plus, rest, rfl, h.1.1⟩
    by_cases hminus : c = '-'
    · subst hminus
      cases rest with
      | nil => simp [readExponent?] at h
      | cons d rest =>
        have hd : d ≠ '+' := fun heq => (isStrict_cons_iff.1 hstrict).2.2.1 rfl (congrArg some heq)
        have hdigits : d.isDigit = true ∧ ∀ c ∈ rest, c.isDigit = true := by
          simp [readExponent?, hd] at h
          exact h.1.1
        exact ⟨.minus, d :: rest, rfl, by simp, List.forall_mem_cons.2 hdigits⟩
    · have hdigits : c.isDigit = true ∧ ∀ d ∈ rest, d.isDigit = true := by
        simp [readExponent?, hplus, hminus] at h
        exact h.1.1
      exact ⟨.absent, c :: rest, rfl, by simp, List.forall_mem_cons.2 hdigits⟩

/-- What stands in front of the exponent is read for itself, and so is the
    exponent, if there is one. -/
def ReadsInParts (text : List Char) : Prop :=
  (∃ base, readPlain? (text.takeWhile (!isExponentMark ·)) = some base) ∧
    (text.dropWhile (!isExponentMark ·) = [] ∨
      ∃ mark exponent found, text.dropWhile (!isExponentMark ·) = mark :: exponent ∧
        readExponent? exponent = some found)

/-- A text without a point in front of everything is read in parts. -/
theorem readsInParts_of_readChars? {d : Decimal} (h : readChars? text = some d)
    (hpoint : text.head? ≠ some '.') : ReadsInParts text := by
  unfold readChars? at h
  split at h
  · exact absurd rfl hpoint
  · dsimp only at h
    split at h
    · next hdrop =>
      have htake : text.takeWhile (!isExponentMark ·) = text := by
        simpa [hdrop] using List.takeWhile_append_dropWhile (p := (!isExponentMark ·)) (l := text)
      exact ⟨⟨d, htake.symm ▸ h⟩, .inl hdrop⟩
    · next mark exponent hdrop =>
      obtain ⟨base, hbase, h⟩ := Option.bind_eq_some_iff.1 h
      obtain ⟨found, hfound, -⟩ := Option.bind_eq_some_iff.1 h
      exact ⟨⟨base, hbase⟩, .inr ⟨mark, exponent, found, hdrop, hfound⟩⟩

/-- In a strict text nothing is read differently for a point in front of everything. -/
theorem readsInParts_of_isStrict {d : Decimal} (h : readChars? text = some d)
    (hstrict : isStrict text = true) : ReadsInParts text := by
  by_cases hpoint : text.head? = some '.'
  · obtain ⟨rest, rfl⟩ := List.head?_eq_some_iff.1 hpoint
    obtain ⟨c, hc, hdigit⟩ := (isStrict_cons_iff.1 hstrict).2.1 rfl
    obtain ⟨rest, rfl⟩ := List.head?_eq_some_iff.1 hc
    have hmark : isExponentMark c = false := isExponentMark_of_isDigit hdigit
    have hpointMark : isExponentMark '.' = false := rfl
    have hzeroMark : isExponentMark '0' = false := rfl
    have hzero (tail : List Char) :
        readPlain? ('0' :: '.' :: c :: tail) = readPlain? ('.' :: c :: tail) := by
      have hplain : readPlain? ('.' :: c :: tail) =
          (readDigits {} ('.' :: c :: tail)).bind fun found => ofResult? false found.1 found.2 :=
        rfl
      rw [hplain, ← readDigits_zero_point hdigit]
      rfl
    have hparts := readsInParts_of_readChars? ((readChars?_point _).symm.trans h) (by simp)
    simpa only [ReadsInParts, List.takeWhile_cons, List.dropWhile_cons, hmark, hpointMark,
      hzeroMark, Bool.not_false, if_true, hzero] using hparts
  · exact readsInParts_of_readChars? h hpoint

/-- A strict text that is read is a literal behind a sign. -/
theorem exists_sign_text {d : Decimal} (h : readChars? text = some d)
    (hstrict : isStrict text = true) :
    ∃ (sign : Sign) (l : DecimalLiteral), text = sign.text ++ l.text := by
  obtain ⟨⟨front, hfront⟩, hexponent⟩ := readsInParts_of_isStrict h hstrict
  have hsplit : text.takeWhile (!isExponentMark ·) ++ text.dropWhile (!isExponentMark ·) = text :=
    List.takeWhile_append_dropWhile
  rcases hexponent with hnone | ⟨mark, exponent, found, hsome, hfound⟩
  · rw [hnone, List.append_nil] at hsplit
    rw [hsplit] at hfront
    obtain ⟨sign, l, rfl⟩ := exists_sign_base hfront hstrict
    exact ⟨sign, { l with exponent := none },
      by simp [DecimalLiteral.text, base, pointText, exponentText]⟩
  · have hmark : isExponentMark mark = true := by
      simpa [hsome] using List.head_dropWhile_not (!isExponentMark ·) (l := text) (by simp [hsome])
    have hhead : ∀ c ∈ (mark :: exponent).head?, c.isDigit = false ∧ c ≠ '+' := by
      intro c hc
      obtain rfl := Option.some.inj hc
      exact not_digit_of_isExponentMark hmark
    rw [hsome] at hsplit
    rw [← hsplit, isStrict_append_iff hhead, isStrict_cons_iff] at hstrict
    obtain ⟨sign, l, hl⟩ := exists_sign_base hfront hstrict.1
    obtain ⟨exponentSign, digits, rfl, hne, hdigits⟩ := exists_sign_digits hfound hstrict.2.2.2.2
    refine ⟨sign, { l with exponent := some ⟨mark, exponentSign, digits, hmark, hdigits, hne⟩ }, ?_⟩
    rw [← hsplit, hl]
    simp [DecimalLiteral.text, base, pointText, exponentText, Exponent.text]

/-! ## Literals are strict -/

variable (l : DecimalLiteral)

theorem isStrict_sign (sign : Sign) (hplus : text.head? ≠ some '+') (h : isStrict text = true) :
    isStrict (sign.text ++ text) = true := by
  cases sign with
  | absent => exact h
  | plus =>
    exact isStrict_cons_iff.2 ⟨by decide, fun hpoint => absurd hpoint (by decide), by simp, h⟩
  | minus =>
    exact isStrict_cons_iff.2 ⟨by decide, fun hpoint => absurd hpoint (by decide),
      fun _ => hplus, h⟩

theorem isStrict_of_digits (h : ∀ c ∈ text, c.isDigit = true) : isStrict text = true := by
  simpa [isStrict] using isStrict_digits h []

theorem isStrict_base : isStrict l.base = true := by
  rw [base, isStrict_digits l.isDigit_whole, pointText]
  split
  · rfl
  · next hne =>
    obtain ⟨c, rest, hfraction⟩ := List.exists_cons_of_ne_nil hne
    have hc : c.isDigit = true := l.isDigit_fraction c (by simp [hfraction])
    exact isStrict_cons_iff.2 ⟨by decide, fun _ => ⟨c, by simp [hfraction], hc⟩,
      fun hminus => absurd hminus (by decide), isStrict_of_digits l.isDigit_fraction⟩

theorem isStrict_exponentText : isStrict l.exponentText = true := by
  rcases l.exponentText_cases with ⟨htext, -⟩ | ⟨x, htext, -⟩
  · rw [htext]
    rfl
  · obtain ⟨c, rest, hdigits, hc⟩ := x.exists_digit
    have hplus : x.digits.head? ≠ some '+' := by
      rw [hdigits, List.head?_cons, ne_eq, Option.some_inj]
      rintro rfl
      cases hc
    have hrest := isStrict_sign x.sign hplus (isStrict_of_digits x.isDigit_digits)
    rw [htext, Exponent.text, isStrict_cons_iff]
    rcases eq_of_isExponentMark x.isExponentMark_mark with hmark | hmark <;> rw [hmark] <;>
      exact ⟨by decide, fun hpoint => absurd hpoint (by decide),
        fun hminus => absurd hminus (by decide), hrest⟩

/-- A literal is a strict text, also behind a sign. -/
theorem isStrict_text (sign : Sign) : isStrict (sign.text ++ l.text) = true := by
  refine isStrict_sign sign ?_
    ((isStrict_append_iff ?_).2 ⟨l.isStrict_base, l.isStrict_exponentText⟩)
  · rcases l.base_cases with ⟨c, rest, hbase, hc⟩ | ⟨c, rest, hbase, -⟩
    · rw [DecimalLiteral.text, hbase, List.cons_append, List.head?_cons, ne_eq, Option.some_inj]
      rintro rfl
      cases hc
    · simp [DecimalLiteral.text, hbase]
  · intro c hc
    rcases l.exponentText_cases with ⟨htext, -⟩ | ⟨x, htext, -⟩
    · rw [htext] at hc
      cases hc
    · rw [htext, Exponent.text] at hc
      obtain rfl := Option.some.inj hc
      exact not_digit_of_isExponentMark x.isExponentMark_mark

end DecimalLiteral

end Formula
