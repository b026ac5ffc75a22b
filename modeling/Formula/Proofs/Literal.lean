import Formula.Text.Blank
import Formula.Token.Numeral
import Formula.Token.Quoted

set_option autoImplicit false

/-! # Literals and what stands behind them

A numeral is cut as long as it can be, so the text behind it has a say in where it ends. It has no
more say than that: a literal that ends before some place of a text is the same literal when the
text goes on from that place with a separator instead, or not at all. -/

namespace Formula

/-- The characters that no token takes but as its first one, outside of quotes. -/
def isSeparator (c : Char) : Bool := isBlank c || c == '(' || c == ')' || c == ','

/-- The text is empty or starts with a separator. -/
def Separated (text : List Char) : Prop := ∀ c ∈ text.head?, isSeparator c = true

theorem separated_cons {c : Char} {text : List Char} :
    Separated (c :: text) ↔ isSeparator c = true := by
  simp [Separated]

theorem mem_of_isSeparator {c : Char} (h : isSeparator c = true) :
    c ∈ [' ', '\t', '\n', '\x0c', '\r', '(', ')', ','] := by
  simp only [isSeparator, isBlank, Bool.or_eq_true, beq_iff_eq] at h
  simp only [List.mem_cons, List.not_mem_nil, or_false]
  grind

/-- What holds of no separator does not hold of the next character. -/
theorem Separated.head_not {text : List Char} (h : Separated text) {p : Char → Bool}
    (hp : [' ', '\t', '\n', '\x0c', '\r', '(', ')', ','].all (fun c => !p c) = true) :
    ∀ c ∈ text.head?, p c = false := by
  intro c hc
  have hmem := List.all_eq_true.1 hp c (mem_of_isSeparator (h c hc))
  simpa using hmem

/-- A table without separators has no entry for the next character. -/
theorem Separated.lookup_eq_none {α : Type} {text : List Char} (h : Separated text)
    {table : List (Char × α)} (htable : table.all (fun entry => !isSeparator entry.1) = true) :
    ∀ c ∈ text.head?, table.lookup c = none := by
  intro c hc
  rw [List.lookup_eq_none_iff]
  intro entry hentry
  have hentry' := List.all_eq_true.1 htable entry hentry
  have hc' := h c hc
  rw [bne_iff_ne]
  rintro rfl
  simp [hc'] at hentry'

/-! ## Runs of a class of characters -/

/-- A run that ends within `front` ends at the same place when something else that is not of
    the class follows `front`. -/
theorem takeWhile_append_congr {p : Char → Bool} {front behind other : List Char}
    (hlength : ((front ++ behind).takeWhile p).length ≤ front.length)
    (hother : ∀ c ∈ other.head?, p c = false) :
    (front ++ other).takeWhile p = (front ++ behind).takeWhile p := by
  induction front with
  | nil =>
    have hbehind : behind.takeWhile p = [] := by
      simpa using hlength
    have hnone : other.takeWhile p = [] := by
      cases other with
      | nil => rfl
      | cons c other => simp [hother c rfl]
    simp [hbehind, hnone]
  | cons c front ih =>
    simp only [List.cons_append, List.takeWhile_cons] at hlength ⊢
    split
    · next hc =>
      simp only [hc, if_true, List.length_cons, Nat.add_le_add_iff_right] at hlength
      rw [ih hlength]
    · rfl

/-! ## Numerals -/

namespace Numeral

variable {front behind other : List Char}

theorem pointPart_append_congr (hlength : (pointPart (front ++ behind)).length ≤ front.length)
    (hother : Separated other) : pointPart (front ++ other) = pointPart (front ++ behind) := by
  have hdigit : ∀ c ∈ other.head?, c.isDigit = false := hother.head_not (by decide)
  match front with
  | [] =>
    have hbehind : pointPart behind = [] := by simpa using hlength
    rw [List.nil_append, List.nil_append, hbehind]
    unfold pointPart
    split
    · next rest => exact absurd (hother '.' rfl) (by decide)
    · rfl
  | c :: front =>
    by_cases hc : c = '.'
    · subst hc
      simp only [List.cons_append, pointPart] at hlength ⊢
      have hdigits : (front ++ other).takeWhile Char.isDigit =
          (front ++ behind).takeWhile Char.isDigit := by
        refine takeWhile_append_congr ?_ hdigit
        split at hlength
        · next hnone => simp [List.isEmpty_iff.1 hnone]
        · simpa using hlength
      rw [hdigits]
    · simp [pointPart, hc]

theorem signPart_append_congr (h : front ≠ []) :
    signPart (front ++ other) = signPart (front ++ behind) := by
  match front, h with
  | c :: front, _ =>
    unfold signPart
    split <;> split <;> simp_all

theorem signPart_length_le (text : List Char) : (signPart text).length ≤ 1 := by
  unfold signPart
  split <;> simp

theorem signPart_of_separated (h : Separated other) : signPart other = [] := by
  unfold signPart
  split
  · exact absurd (h '+' rfl) (by decide)
  · exact absurd (h '-' rfl) (by decide)
  · rfl

theorem exponentPart_append_congr (hlength : (exponentPart (front ++ behind)).length ≤ front.length)
    (hother : Separated other) :
    exponentPart (front ++ other) = exponentPart (front ++ behind) := by
  have hdigit : ∀ c ∈ other.head?, c.isDigit = false := hother.head_not (by decide)
  match front with
  | [] =>
    have hbehind : exponentPart behind = [] := by simpa using hlength
    rw [List.nil_append, List.nil_append, hbehind]
    cases other with
    | nil => rfl
    | cons c other =>
      have hmark : Decimal.isExponentMark c = false := hother.head_not (by decide) c rfl
      simp [exponentPart, hmark]
  | [mark] =>
    -- a mark without digits is no exponent
    have hnone : (other.drop (signPart other).length).takeWhile Char.isDigit = [] := by
      rw [signPart_of_separated hother]
      cases other with
      | nil => rfl
      | cons c other => simp [hdigit c rfl]
    simp only [List.cons_append, List.nil_append, exponentPart, hnone] at hlength ⊢
    split at hlength
    · next hsome =>
      simp only [List.length_cons, List.length_append, List.length_nil] at hlength
      have hempty := List.length_eq_zero_iff.1 (Nat.le_zero.1 (Nat.le_trans (Nat.le_add_left _ _)
        (Nat.le_of_succ_le_succ hlength)))
      simp [hempty] at hsome
    · next hempty => simp [hempty]
  | mark :: next :: front =>
    -- a sign stands in `front`, so only the digits could go on behind it
    have hsign : signPart (next :: front ++ other) = signPart (next :: front ++ behind) :=
      signPart_append_congr (List.cons_ne_nil next front)
    simp only [List.cons_append, exponentPart] at hlength hsign ⊢
    rw [hsign]
    generalize hk : (signPart (next :: (front ++ behind))).length = k at hlength ⊢
    have hle : k ≤ (next :: front).length := by
      have := signPart_length_le (next :: (front ++ behind))
      simp only [List.length_cons]
      omega
    by_cases hmark : Decimal.isExponentMark mark = true
    · have hdigits : ((next :: (front ++ other)).drop k).takeWhile Char.isDigit =
          ((next :: (front ++ behind)).drop k).takeWhile Char.isDigit := by
        rw [← List.cons_append, ← List.cons_append, List.drop_append_of_le_length hle,
          List.drop_append_of_le_length hle]
        refine takeWhile_append_congr ?_ hdigit
        rw [← List.drop_append_of_le_length hle, List.cons_append]
        split at hlength
        · simp only [List.length_cons, List.length_append, hk] at hlength
          rw [List.length_drop, List.length_cons]
          omega
        · next hempty =>
          simp only [hmark, Bool.true_and, Bool.not_eq_true, Bool.not_eq_false',
            List.isEmpty_iff] at hempty
          rw [hempty]
          exact Nat.zero_le _
      rw [hdigits]
    · simp [hmark]

/-- A decimal numeral that ends within `front` is the same one before a separator. -/
theorem decimalPart_append_congr (hlength : (decimalPart (front ++ behind)).length ≤ front.length)
    (hother : Separated other) :
    decimalPart (front ++ other) = decimalPart (front ++ behind) := by
  have hdigit : ∀ c ∈ other.head?, c.isDigit = false := hother.head_not (by decide)
  unfold decimalPart at hlength ⊢
  dsimp only at hlength ⊢
  simp only [List.length_append] at hlength
  have hwhole :
      (front ++ other).takeWhile Char.isDigit = (front ++ behind).takeWhile Char.isDigit :=
    takeWhile_append_congr (by omega) hdigit
  rw [hwhole]
  generalize (front ++ behind).takeWhile Char.isDigit = whole at hlength ⊢
  have hle : whole.length ≤ front.length := by omega
  rw [List.drop_append_of_le_length hle] at hlength ⊢
  rw [List.drop_append_of_le_length hle]
  generalize hrest : front.drop whole.length = rest at hlength ⊢
  have hrestLength : rest.length = front.length - whole.length := by simp [← hrest]
  have hpoint : pointPart (rest ++ other) = pointPart (rest ++ behind) :=
    pointPart_append_congr (by omega) hother
  rw [hpoint]
  generalize pointPart (rest ++ behind) = point at hlength ⊢
  have hpointLe : point.length ≤ rest.length := by omega
  rw [List.drop_append_of_le_length hpointLe] at hlength ⊢
  rw [List.drop_append_of_le_length hpointLe]
  have hexponent : exponentPart (rest.drop point.length ++ other) =
      exponentPart (rest.drop point.length ++ behind) :=
    exponentPart_append_congr (by rw [List.length_drop]; omega) hother
  rw [hexponent]

theorem suffixPart_append_congr (hlength : (suffixPart (front ++ behind)).length ≤ front.length)
    (hother : Separated other) : suffixPart (front ++ other) = suffixPart (front ++ behind) := by
  match front with
  | [] =>
    have hbehind : suffixPart behind = [] := by simpa using hlength
    rw [List.nil_append, List.nil_append, hbehind]
    cases other with
    | nil => rfl
    | cons c other =>
      have hsuffix : isSuffix c = false := hother.head_not (by decide) c rfl
      simp [suffixPart, hsuffix]
  | c :: front => rfl

/-- A literal's length, by the one character that can make it an error. -/
theorem literalLength_ite (numeral cs : List Char) :
    literalLength numeral cs =
      if (cs.drop (suffixPart cs).length).head?.any isWordChar then
        .error (.invalidNumber (String.ofList (numeral ++ (suffixPart cs ++
          (cs.drop (suffixPart cs).length).takeWhile
            fun c => isWordChar c || c == '.'))))
      else
        .ok (numeral.length + (suffixPart cs).length) := by
  unfold literalLength
  dsimp only
  split
  · next hnil => simp [hnil]
  · next c tail hcons => simp [hcons]

/-- A literal is its numeral and its suffix. -/
theorem literalLength_eq {numeral rest : List Char} {length : Nat}
    (h : literalLength numeral rest = .ok length) :
    length = numeral.length + (suffixPart rest).length := by
  rw [literalLength_ite] at h
  split at h
  · cases h
  · exact (Except.ok.inj h).symm

/-- A literal that ends within `front` has the same length before a separator. -/
theorem literalLength_append_congr {numeral : List Char} {length : Nat}
    (h : literalLength numeral (front ++ behind) = .ok length)
    (hlength : length ≤ numeral.length + front.length) (hother : Separated other) :
    literalLength numeral (front ++ other) = .ok length := by
  have hfound := literalLength_eq h
  have hle : (suffixPart (front ++ behind)).length ≤ front.length := by omega
  rw [literalLength_ite] at h ⊢
  rw [suffixPart_append_congr hle hother]
  generalize suffixPart (front ++ behind) = suffix at h hfound hle ⊢
  rw [List.drop_append_of_le_length hle] at h ⊢
  split at h
  · cases h
  · next hword =>
    have hnone : ¬ (front.drop suffix.length ++ other).head?.any isWordChar = true := by
      cases hrest : front.drop suffix.length with
      | cons c rest =>
        rw [hrest] at hword
        exact hword
      | nil =>
        cases other with
        | nil => simp
        | cons c other => simpa using hother.head_not (by decide) c rfl
    rw [if_neg hnone]
    exact h

theorem scanDecimal_eq_ok_iff {text : List Char} {value : Decimal} {length : Nat} :
    scanDecimal text = .ok (value, length) ↔
      literalLength (decimalPart text) (text.drop (decimalPart text).length) = .ok length ∧
        Decimal.readChars? (decimalPart text) = some value := by
  unfold scanDecimal
  dsimp only [bind, Except.bind]
  cases literalLength (decimalPart text) (text.drop (decimalPart text).length) with
  | error cause => simp
  | ok found =>
    cases Decimal.readChars? (decimalPart text) with
    | none => simp
    | some read =>
      simp only [pure, Except.pure, Except.ok.injEq, Prod.mk.injEq, Option.some.injEq]
      exact And.comm

/-- What a literal's length counts first is its numeral. -/
theorem length_le_of_literalLength {numeral rest : List Char} {length : Nat}
    (h : literalLength numeral rest = .ok length) : numeral.length ≤ length := by
  rw [literalLength_eq h]
  exact Nat.le_add_right _ _

theorem scanDecimal_append_congr {value : Decimal} {length : Nat}
    (h : scanDecimal (front ++ behind) = .ok (value, length)) (hlength : length ≤ front.length)
    (hother : Separated other) : scanDecimal (front ++ other) = .ok (value, length) := by
  obtain ⟨hliteral, hread⟩ := scanDecimal_eq_ok_iff.1 h
  have hnumeral := length_le_of_literalLength hliteral
  have hle : (decimalPart (front ++ behind)).length ≤ front.length := Nat.le_trans hnumeral hlength
  rw [scanDecimal_eq_ok_iff, decimalPart_append_congr hle hother]
  rw [List.drop_append_of_le_length hle] at hliteral ⊢
  refine ⟨literalLength_append_congr hliteral ?_ hother, hread⟩
  rw [List.length_drop]
  omega

theorem scanHex_eq_ok_iff {mark text : List Char} {value : Decimal} {length : Nat} :
    scanHex mark text = .ok (value, length) ↔
      (text.takeWhile isHexDigit ≠ []) ∧
        literalLength (mark ++ text.takeWhile isHexDigit)
          (text.drop (text.takeWhile isHexDigit).length) = .ok length ∧
        ∃ h : ofHexDigits (text.takeWhile isHexDigit) < 18446744073709551616,
          Decimal.ofWord _ h = value := by
  unfold scanHex
  dsimp only [bind, Except.bind]
  generalize text.takeWhile isHexDigit = digits
  by_cases hempty : digits = []
  · simp [hempty]
  · rw [if_neg (by simpa using hempty)]
    simp only [pure, Except.pure]
    cases literalLength (mark ++ digits) (text.drop digits.length) with
    | error cause => simp
    | ok found =>
      by_cases hn : ofHexDigits digits < 18446744073709551616
      · simp only [hn, dite_true, Except.ok.injEq, Prod.mk.injEq, exists_true_left, ne_eq, hempty,
          not_false_eq_true, true_and]
        exact And.comm
      · simp [hn]

theorem scanHex_append_congr {mark : List Char} {value : Decimal} {length : Nat}
    (h : scanHex mark (front ++ behind) = .ok (value, length))
    (hlength : length ≤ mark.length + front.length) (hother : Separated other) :
    scanHex mark (front ++ other) = .ok (value, length) := by
  obtain ⟨hdigits, hliteral, hvalue⟩ := scanHex_eq_ok_iff.1 h
  have hnumeral := length_le_of_literalLength hliteral
  rw [List.length_append] at hnumeral
  have hle : ((front ++ behind).takeWhile isHexDigit).length ≤ front.length := by omega
  have heq : (front ++ other).takeWhile isHexDigit = (front ++ behind).takeWhile isHexDigit :=
    takeWhile_append_congr hle (hother.head_not (by decide))
  rw [scanHex_eq_ok_iff, heq]
  refine ⟨hdigits, ?_, hvalue⟩
  rw [List.drop_append_of_le_length hle] at hliteral ⊢
  refine literalLength_append_congr hliteral ?_ hother
  rw [List.length_drop, List.length_append]
  omega

/-- A hexadecimal literal has a digit behind its mark. -/
theorem lt_length_of_scanHex {mark text : List Char} {value : Decimal} {length : Nat}
    (h : scanHex mark text = .ok (value, length)) : mark.length < length := by
  obtain ⟨hdigits, hliteral, -⟩ := scanHex_eq_ok_iff.1 h
  have hnumeral := length_le_of_literalLength hliteral
  have hpos := List.length_pos_iff.2 hdigits
  rw [List.length_append] at hnumeral
  omega

/-- A numeric literal that ends within `front` is the same one before a separator. -/
theorem scan_append_congr {value : Decimal} {length : Nat} (hne : front ≠ [])
    (h : scan (front ++ behind) = .ok (value, length)) (hlength : length ≤ front.length)
    (hother : Separated other) : scan (front ++ other) = .ok (value, length) := by
  match front, hne with
  | [c], _ =>
    -- the mark of a hexadecimal literal would stand behind `front`, and its digits too
    have hmark : ∀ m ∈ other.head?, (m == 'x' || m == 'X') = false := hother.head_not (by decide)
    have hscan : scan ([c] ++ other) = scanDecimal ([c] ++ other) := by
      cases other with
      | nil => simp [scan]
      | cons m other =>
        have hm := hmark m rfl
        simp only [Bool.or_eq_false_iff, beq_eq_false_iff_ne, ne_eq] at hm
        simp [scan, hm]
    rw [hscan]
    simp only [List.length_cons, List.length_nil] at hlength
    unfold scan at h
    split at h
    · have hdigit := lt_length_of_scanHex h
      simp only [List.length_cons, List.length_nil] at hdigit
      omega
    · have hdigit := lt_length_of_scanHex h
      simp only [List.length_cons, List.length_nil] at hdigit
      omega
    · exact scanDecimal_append_congr h hlength hother
  | c :: m :: front, _ =>
    simp only [List.cons_append, scan] at h ⊢
    split at h
    · next text heq =>
      simp only [List.cons.injEq] at heq
      obtain ⟨rfl, rfl, rfl⟩ := heq
      refine scanHex_append_congr h ?_ hother
      simp only [List.length_cons, List.length_nil] at hlength ⊢
      omega
    · next text heq =>
      simp only [List.cons.injEq] at heq
      obtain ⟨rfl, rfl, rfl⟩ := heq
      refine scanHex_append_congr h ?_ hother
      simp only [List.length_cons, List.length_nil] at hlength ⊢
      omega
    · next hx hX =>
      have hdecimal : scanDecimal (c :: m :: front ++ other) = .ok (value, length) :=
        scanDecimal_append_congr h hlength hother
      split
      · next heq =>
        simp only [List.cons.injEq] at heq
        obtain ⟨rfl, rfl, -⟩ := heq
        exact absurd rfl (hx _)
      · next heq =>
        simp only [List.cons.injEq] at heq
        obtain ⟨rfl, rfl, -⟩ := heq
        exact absurd rfl (hX _)
      · exact hdecimal

/-! ### No literal is longer than the text -/

/-- What is at the front of a text, and what is at the front of the rest, are
    together at its front. -/
theorem append_isPrefix {front behind text : List Char} (hfront : front <+: text)
    (hbehind : behind <+: text.drop front.length) : front ++ behind <+: text := by
  obtain ⟨rest, rfl⟩ := hfront
  rw [List.drop_left] at hbehind
  exact (List.prefix_append_right_inj front).2 hbehind

theorem pointPart_isPrefix (text : List Char) : pointPart text <+: text := by
  unfold pointPart
  split
  · dsimp only
    split
    · exact List.nil_prefix
    · exact (List.prefix_cons_inj '.').2 (List.takeWhile_prefix _)
  · exact List.nil_prefix

theorem signPart_isPrefix (text : List Char) : signPart text <+: text := by
  unfold signPart
  split
  · exact ⟨_, rfl⟩
  · exact ⟨_, rfl⟩
  · exact List.nil_prefix

theorem exponentPart_isPrefix (text : List Char) : exponentPart text <+: text := by
  cases text with
  | nil => exact List.nil_prefix
  | cons mark rest =>
    simp only [exponentPart]
    split
    · exact (List.prefix_cons_inj mark).2
        (append_isPrefix (signPart_isPrefix rest) (List.takeWhile_prefix _))
    · exact List.nil_prefix

theorem suffixPart_isPrefix (cs : List Char) : suffixPart cs <+: cs := by
  unfold suffixPart
  split
  · split
    · exact ⟨_, rfl⟩
    · exact List.nil_prefix
  · exact List.nil_prefix

theorem decimalPart_isPrefix (text : List Char) : decimalPart text <+: text :=
  append_isPrefix (List.takeWhile_prefix _)
    (append_isPrefix (pointPart_isPrefix _) (exponentPart_isPrefix _))

theorem literalLength_le {numeral rest : List Char} {length : Nat}
    (h : literalLength numeral rest = .ok length) : length ≤ numeral.length + rest.length := by
  have hsuffix : (suffixPart rest).length ≤ rest.length := by
    cases rest with
    | nil => exact Nat.le_refl _
    | cons c rest =>
      simp only [suffixPart]
      split <;> simp
  have hlength := literalLength_eq h
  omega

theorem length_le_of_scan {text : List Char} {value : Decimal} {length : Nat}
    (h : scan text = .ok (value, length)) : length ≤ text.length := by
  have hhex : ∀ {mark text : List Char}, scanHex mark text = .ok (value, length) →
      length ≤ mark.length + text.length := by
    intro mark text h
    have hliteral := literalLength_le (scanHex_eq_ok_iff.1 h).2.1
    have hdigits := (text.takeWhile_sublist isHexDigit).length_le
    rw [List.length_append, List.length_drop] at hliteral
    omega
  unfold scan at h
  split at h
  · have := hhex h
    simp only [List.length_cons, List.length_nil] at this ⊢
    omega
  · have := hhex h
    simp only [List.length_cons, List.length_nil] at this ⊢
    omega
  · have hliteral := literalLength_le (scanDecimal_eq_ok_iff.1 h).1
    have := (decimalPart_isPrefix text).length_le
    rw [List.length_drop] at hliteral
    omega

end Numeral

/-! ## Quoted literals -/

namespace Quoted

variable {front behind other : List Char}

/-- How a string is read from its first character on. -/
theorem scanString_cons_eq_ok_iff {offset length : Nat} {c : Char} {rest text : List Char} :
    scanString offset (c :: rest) = .ok (text, length) ↔
      (c = '"' ∧ text = [] ∧ length = 1) ∨
      (c = '\\' ∧ ∃ e behind d inner n, rest = e :: behind ∧ escape? e = some d ∧
        scanString (offset + 2) behind = .ok (inner, n) ∧ text = d :: inner ∧ length = n + 2) ∨
      (c ≠ '"' ∧ c ≠ '\n' ∧ c ≠ '\\' ∧ ∃ inner n,
        scanString (offset + c.utf8Size) rest = .ok (inner, n) ∧ text = c :: inner ∧
          length = n + 1) := by
  rw [scanString.eq_def]
  dsimp only
  by_cases hquote : c = '"'
  · subst hquote
    simp [eq_comm]
  by_cases hline : c = '\n'
  · subst hline
    simp
  by_cases hescape : c = '\\'
  · subst hescape
    cases rest with
    | nil => simp
    | cons e behind =>
      cases hd : escape? e with
      | none => simp [hd]
      | some d =>
        cases hscan : scanString (offset + 2) behind with
        | error fault => simp [hd, hscan]
        | ok found =>
          obtain ⟨inner, n⟩ := found
          simp only [hd]
          grind
  · cases hscan : scanString (offset + c.utf8Size) rest with
    | error fault => simp [hquote, hline, hescape]
    | ok found =>
      obtain ⟨inner, n⟩ := found
      simp only [beq_iff_eq, hquote, hline, hescape, if_false]
      grind

theorem scanString_nil_ne_ok {offset length : Nat} {text : List Char} :
    scanString offset [] ≠ .ok (text, length) := by
  simp [scanString]

theorem length_pos_of_scanString {offset length : Nat} {rest text : List Char}
    (h : scanString offset rest = .ok (text, length)) : 0 < length := by
  cases rest with
  | nil => exact absurd h scanString_nil_ne_ok
  | cons c rest =>
    rcases scanString_cons_eq_ok_iff.1 h with ⟨-, -, rfl⟩ | ⟨-, _, _, _, _, _, -, -, -, -, rfl⟩ |
      ⟨-, -, -, _, _, -, -, rfl⟩ <;> omega

/-- A string ends at its quote, whatever follows. -/
theorem scanString_append_congr (front : List Char) {offset length : Nat} {text : List Char}
    (h : scanString offset (front ++ behind) = .ok (text, length))
    (hlength : length ≤ front.length) :
    scanString offset (front ++ other) = .ok (text, length) := by
  match front with
  | [] => exact absurd (length_pos_of_scanString h) (by simpa using hlength)
  | c :: front =>
    rw [List.cons_append, scanString_cons_eq_ok_iff] at h ⊢
    simp only [List.length_cons] at hlength
    rcases h with hquote | ⟨hc, e, rest, d, inner, n, hrest, hd, hscan, rfl, rfl⟩ |
      ⟨hquote, hline, hescape, inner, n, hscan, rfl, rfl⟩
    · exact .inl hquote
    · match front, hrest with
      | [], hrest => simp at hlength
      | e :: front, hrest =>
        obtain ⟨rfl, rfl⟩ := List.cons.inj hrest
        exact .inr (.inl ⟨hc, e, front ++ other, d, inner, n, rfl, hd,
          scanString_append_congr front hscan (by simpa using hlength), rfl, rfl⟩)
    · exact .inr (.inr ⟨hquote, hline, hescape, inner, n,
        scanString_append_congr front hscan (by omega), rfl, rfl⟩)

/-- How a verbatim string is read. Its quote is the first one that is not followed by another. -/
theorem scanVerbatim_cons_eq_some_iff {length : Nat} {c : Char} {rest text : List Char} :
    scanVerbatim (c :: rest) = some (text, length) ↔
      (c = '"' ∧ rest.head? ≠ some '"' ∧ text = [] ∧ length = 1) ∨
      (c = '"' ∧ ∃ behind inner n, rest = '"' :: behind ∧ scanVerbatim behind = some (inner, n) ∧
        text = '"' :: inner ∧ length = n + 2) ∨
      (c ≠ '"' ∧ ∃ inner n, scanVerbatim rest = some (inner, n) ∧ text = c :: inner ∧
        length = n + 1) := by
  rw [scanVerbatim.eq_def]
  split
  · next heq => cases heq
  · next behind heq =>
    obtain ⟨rfl, rfl⟩ := List.cons.inj heq
    cases hscan : scanVerbatim behind with
    | none => simp [hscan]
    | some found =>
      obtain ⟨inner, n⟩ := found
      simp only [Option.map_some, Option.some.injEq, Prod.mk.injEq]
      grind
  · next d behind hnext heq =>
    obtain ⟨rfl, rfl⟩ := List.cons.inj heq
    by_cases hc : c = '"'
    · subst hc
      have hhead : rest.head? ≠ some '"' := by
        intro hquote
        match rest, hquote with
        | _ :: behind, rfl => exact hnext behind rfl rfl
      simp only [beq_self_eq_true, if_true, Option.some.injEq, Prod.mk.injEq]
      grind
    · cases hscan : scanVerbatim rest with
      | none => simp [hc]
      | some found =>
        obtain ⟨inner, n⟩ := found
        simp only [beq_iff_eq, hc, if_false, Option.map_some, Option.some.injEq, Prod.mk.injEq]
        grind

theorem length_pos_of_scanVerbatim {length : Nat} {rest text : List Char}
    (h : scanVerbatim rest = some (text, length)) : 0 < length := by
  cases rest with
  | nil => simp [scanVerbatim] at h
  | cons c rest =>
    rcases scanVerbatim_cons_eq_some_iff.1 h with ⟨-, -, -, rfl⟩ | ⟨-, _, _, _, -, -, -, rfl⟩ |
      ⟨-, _, _, -, -, rfl⟩ <;> omega

theorem scanVerbatim_append_congr (front : List Char) {length : Nat} {text : List Char}
    (h : scanVerbatim (front ++ behind) = some (text, length)) (hlength : length ≤ front.length)
    (hother : Separated other) : scanVerbatim (front ++ other) = some (text, length) := by
  match front with
  | [] => exact absurd (length_pos_of_scanVerbatim h) (by simpa using hlength)
  | c :: front =>
    rw [List.cons_append, scanVerbatim_cons_eq_some_iff] at h ⊢
    simp only [List.length_cons] at hlength
    rcases h with ⟨hc, hnext, rfl, rfl⟩ | ⟨hc, rest, inner, n, hrest, hscan, rfl, rfl⟩ |
      ⟨hc, inner, n, hscan, rfl, rfl⟩
    · refine .inl ⟨hc, ?_, rfl, rfl⟩
      match front with
      | [] =>
        intro hquote
        exact absurd (hother '"' hquote) (by decide)
      | d :: front => simpa using hnext
    · match front, hrest with
      | [], hrest => simp at hlength
      | d :: front, hrest =>
        obtain ⟨rfl, rfl⟩ := List.cons.inj hrest
        exact .inr (.inl ⟨hc, front ++ other, inner, n, rfl,
          scanVerbatim_append_congr front hscan (by simpa using hlength) hother, rfl, rfl⟩)
    · exact .inr (.inr ⟨hc, inner, n,
        scanVerbatim_append_congr front hscan (by omega) hother, rfl, rfl⟩)

theorem closeCharacter_eq_ok_iff {n length : Nat} {rest : List Char} :
    closeCharacter n rest = .ok length ↔ rest.head? = some '\x27' ∧ length = n + 1 := by
  unfold closeCharacter
  by_cases hclose : rest.head? = some '\x27'
  · simp [hclose, eq_comm]
  · simp [hclose]

/-- The two forms of a character literal. -/
theorem scanCharacter_eq_ok_iff {length : Nat} {text : List Char} :
    scanCharacter text = .ok length ↔
      (∃ e rest, text = '\\' :: e :: '\x27' :: rest ∧ (escape? e).isSome ∧ length = 3) ∨
      (∃ c rest, text = c :: '\x27' :: rest ∧ c ≠ '\\' ∧ c ≠ '\x27' ∧ c ≠ '\n' ∧ length = 2) := by
  constructor
  · intro h
    match text, h with
    | c :: rest, h =>
      simp only [scanCharacter] at h
      by_cases hescape : c = '\\'
      · subst hescape
        match rest, h with
        | e :: rest, h =>
          simp only [beq_self_eq_true, if_true] at h
          split at h
          · next he =>
            obtain ⟨hclose, rfl⟩ := closeCharacter_eq_ok_iff.1 h
            match rest, hclose with
            | _ :: rest, rfl => exact .inl ⟨e, rest, rfl, he, rfl⟩
          · cases h
      · simp only [beq_iff_eq, hescape, if_false] at h
        split at h
        · cases h
        · next hother =>
          obtain ⟨hclose, rfl⟩ := closeCharacter_eq_ok_iff.1 h
          simp only [Bool.or_eq_true, beq_iff_eq, not_or] at hother
          match rest, hclose with
          | _ :: rest, rfl => exact .inr ⟨c, rest, rfl, hescape, hother.1, hother.2, rfl⟩
  · rintro (⟨e, rest, rfl, he, rfl⟩ | ⟨c, rest, rfl, hescape, hquote, hline, rfl⟩)
    · simp [scanCharacter, he, closeCharacter_eq_ok_iff]
    · simp [scanCharacter, hescape, hquote, hline, closeCharacter_eq_ok_iff]

theorem scanCharacter_append_congr {length : Nat}
    (h : scanCharacter (front ++ behind) = .ok length) (hlength : length ≤ front.length) :
    scanCharacter (front ++ other) = .ok length := by
  rw [scanCharacter_eq_ok_iff] at h ⊢
  rcases h with ⟨e, rest, heq, he, rfl⟩ | ⟨c, rest, heq, hescape, hquote, hline, rfl⟩
  · match front, hlength with
    | _ :: _ :: _ :: front, _ =>
      simp only [List.cons_append, List.cons.injEq] at heq
      obtain ⟨rfl, rfl, rfl, -⟩ := heq
      exact .inl ⟨_, front ++ other, rfl, he, rfl⟩
  · match front, hlength with
    | _ :: _ :: front, _ =>
      simp only [List.cons_append, List.cons.injEq] at heq
      obtain ⟨rfl, rfl, -⟩ := heq
      exact .inr ⟨_, front ++ other, rfl, hescape, hquote, hline, rfl⟩

theorem length_le_of_scanString {offset length : Nat} {text : List Char} (rest : List Char)
    (h : scanString offset rest = .ok (text, length)) : length ≤ rest.length := by
  match rest with
  | [] => cases h
  | c :: rest =>
    rw [List.length_cons]
    rcases scanString_cons_eq_ok_iff.1 h with ⟨-, -, rfl⟩ |
      ⟨-, e, behind, d, inner, n, rfl, -, hscan, -, rfl⟩ | ⟨-, -, -, inner, n, hscan, -, rfl⟩
    · omega
    · have := length_le_of_scanString behind hscan
      rw [List.length_cons]
      omega
    · have := length_le_of_scanString rest hscan
      omega

theorem length_le_of_scanVerbatim {length : Nat} {text : List Char} (rest : List Char)
    (h : scanVerbatim rest = some (text, length)) : length ≤ rest.length := by
  match rest with
  | [] => cases h
  | c :: rest =>
    rw [List.length_cons]
    rcases scanVerbatim_cons_eq_some_iff.1 h with ⟨-, -, -, rfl⟩ |
      ⟨-, behind, inner, n, rfl, hscan, -, rfl⟩ | ⟨-, inner, n, hscan, -, rfl⟩
    · omega
    · have := length_le_of_scanVerbatim behind hscan
      rw [List.length_cons]
      omega
    · have := length_le_of_scanVerbatim rest hscan
      omega

theorem length_le_of_scanCharacter {length : Nat} {text : List Char}
    (h : scanCharacter text = .ok length) : length ≤ text.length := by
  rcases scanCharacter_eq_ok_iff.1 h with ⟨e, rest, rfl, -, rfl⟩ | ⟨c, rest, rfl, -, -, -, rfl⟩ <;>
    simp only [List.length_cons] <;> omega

end Quoted

end Formula
