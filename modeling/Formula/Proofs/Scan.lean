import Formula.Proofs.Literal
import Formula.Token.Lexer

set_option autoImplicit false

/-! # A token and what stands behind it

A token, like a literal, is cut as long as it can be. One that ends before some place of a text is
the same token when the text goes on from that place with a separator instead, or not at all. -/

namespace Formula

namespace Token

variable {front behind other : List Char}

theorem pair_append_congr {short : Symbol} {longer : List (Char × Symbol)} {kind : Kind} {n : Nat}
    (h : pair (front ++ behind) short longer = (kind, n)) (hlength : n ≤ front.length)
    (hother : ∀ c ∈ other.head?, longer.lookup c = none) :
    pair (front ++ other) short longer = (kind, n) := by
  match front with
  | [] =>
    have hnone : other.head?.bind (longer.lookup ·) = none := by
      cases other with
      | nil => rfl
      | cons c other => exact hother c rfl
    simp only [List.nil_append] at h ⊢
    unfold pair at h ⊢
    rw [hnone]
    split at h
    · obtain ⟨rfl, rfl⟩ := Prod.mk.inj h
      simp at hlength
    · exact h
  | c :: front => exact h

section MapError

variable {ε ε' α : Type} (f : ε → ε')

theorem mapError_error (e : ε) : (Except.error e : Except ε α).mapError f = .error (f e) := rfl

theorem mapError_ok (a : α) : (Except.ok a).mapError f = .ok a := rfl

end MapError

theorem atStart_eq_ok_iff {α : Type} {result : Except ParseError.Cause α} {a : α} :
    atStart result = .ok a ↔ result = .ok a := by
  cases result <;> simp [atStart, mapError_error, mapError_ok]

theorem scanNumber_eq_ok_iff {c : Char} {rest : List Char} {kind : Kind} {n : Nat} :
    scanNumber c rest = .ok (kind, n) ↔
      ∃ value length, Numeral.scan (c :: rest) = .ok (value, length) ∧ kind = .number value ∧
        n = length - 1 := by
  unfold scanNumber
  rw [atStart_eq_ok_iff]
  cases Numeral.scan (c :: rest) with
  | error cause => simp [Except.map]
  | ok found =>
    obtain ⟨value, length⟩ := found
    simp only [Except.map, Except.ok.injEq, Prod.mk.injEq]
    grind

theorem scanNumber_append_congr {c : Char} {kind : Kind} {n : Nat}
    (h : scanNumber c (front ++ behind) = .ok (kind, n)) (hlength : n ≤ front.length)
    (hother : Separated other) : scanNumber c (front ++ other) = .ok (kind, n) := by
  rw [scanNumber_eq_ok_iff] at h ⊢
  obtain ⟨value, length, hscan, rfl, rfl⟩ := h
  refine ⟨value, length, ?_, rfl, rfl⟩
  refine Numeral.scan_append_congr (List.cons_ne_nil c front) hscan ?_ hother
  simp only [List.length_cons]
  omega

theorem scanName_eq_ok_iff {c : Char} {rest : List Char} {kind : Kind} {n : Nat} :
    scanName c rest = .ok (kind, n) ↔
      (isNameStart c = true ∧
        kind = .name (String.ofList (c :: rest.takeWhile Numeral.isWordChar)) ∧
        n = (rest.takeWhile Numeral.isWordChar).length) ∨
      (c = '@' ∧ ∃ d behind, rest = d :: behind ∧ isNameStart d = true ∧
        kind = .name (String.ofList (d :: behind.takeWhile Numeral.isWordChar)) ∧
        n = (behind.takeWhile Numeral.isWordChar).length + 1) := by
  unfold scanName
  by_cases hstart : isNameStart c = true
  · have hat : c ≠ '@' := by
      rintro rfl
      exact absurd hstart (by decide)
    simp only [hstart, if_true, Except.ok.injEq, Prod.mk.injEq]
    grind
  · by_cases hat : c = '@'
    · subst hat
      cases rest with
      | nil => simp [hstart]
      | cons d behind =>
        by_cases hd : isNameStart d = true
        · simp only [hstart, hd, if_true, beq_self_eq_true]
          grind
        · simp [hstart, hd]
    · simp [hstart, hat]

theorem scanName_append_congr {c : Char} {kind : Kind} {n : Nat}
    (h : scanName c (front ++ behind) = .ok (kind, n)) (hlength : n ≤ front.length)
    (hother : Separated other) : scanName c (front ++ other) = .ok (kind, n) := by
  have hword : ∀ d ∈ other.head?, Numeral.isWordChar d = false := hother.head_not (by decide)
  rw [scanName_eq_ok_iff] at h ⊢
  rcases h with ⟨hstart, rfl, rfl⟩ | ⟨hat, d, rest, heq, hstart, rfl, rfl⟩
  · have hsame := takeWhile_append_congr hlength hword
    exact .inl ⟨hstart, by rw [hsame], by rw [hsame]⟩
  · match front, hlength with
    | _ :: front, hlength =>
      rw [List.cons_append] at heq
      obtain ⟨rfl, rfl⟩ := List.cons.inj heq
      have hsame := takeWhile_append_congr (Nat.le_of_succ_le_succ hlength) hword
      exact .inr ⟨hat, _, front ++ other, rfl, hstart, by rw [hsame], by rw [hsame]⟩

/-! ## Tokens by their first character -/

/-- The letters are the ASCII ones. -/
theorem isAlpha_iff {c : Char} :
    c.isAlpha = true ↔
      'A'.val ≤ c.val ∧ c.val ≤ 'Z'.val ∨ 'a'.val ≤ c.val ∧ c.val ≤ 'z'.val := by
  have hlower : c.isLower = true ↔ 'a'.val ≤ c.val ∧ c.val ≤ 'z'.val :=
    Bool.and_eq_true_iff.trans (and_congr decide_eq_true_iff decide_eq_true_iff)
  exact Bool.or_eq_true_iff.trans (or_congr decide_eq_true_iff hlower)

theorem scan_single {c : Char} {symbol : Symbol} (h : single? c = some symbol) (rest : List Char) :
    scan c rest = .ok (.symbol symbol, 0) := by
  unfold scan
  rw [h]

/-- The characters with a rule of their own. -/
def marks : List Char := ['=', '!', '&', '|', '?', '<', '>', '.', '"', '\x27', '@']

theorem scan_plain {c : Char} (hsingle : single? c = none) (hmark : c ∉ marks) (rest : List Char) :
    scan c rest = if c.isDigit then scanNumber c rest else atStart (scanName c rest) := by
  unfold scan
  rw [hsingle]
  dsimp only
  split <;> first | rfl | exact absurd (by decide) hmark

theorem scan_equal (rest : List Char) :
    scan '=' rest =
      if rest.head? = some '=' then .ok (.symbol .equal, 1) else .error ⟨0, .assignment⟩ :=
  rfl

theorem scan_bang (rest : List Char) :
    scan '!' rest = .ok (pair rest .bang [('=', .notEqual)]) :=
  rfl

theorem scan_ampersand (rest : List Char) :
    scan '&' rest = .ok (pair rest .ampersand [('&', .both)]) :=
  rfl

theorem scan_bar (rest : List Char) : scan '|' rest = .ok (pair rest .bar [('|', .either)]) :=
  rfl

theorem scan_question (rest : List Char) :
    scan '?' rest = .ok (pair rest .question [('?', .coalesce)]) :=
  rfl

theorem scan_less (rest : List Char) :
    scan '<' rest = .ok (pair rest .less [('=', .lessEqual), ('<', .shiftLeft)]) :=
  rfl

theorem scan_greater (rest : List Char) :
    scan '>' rest = .ok (pair rest .greater [('=', .greaterEqual), ('>', .shiftRight)]) :=
  rfl

theorem scan_dot (rest : List Char) :
    scan '.' rest =
      if rest.head?.any Char.isDigit then scanNumber '.' rest else .ok (.symbol .dot, 0) :=
  rfl

theorem scan_quote_eq_ok_iff {rest : List Char} {kind : Kind} {n : Nat} :
    scan '"' rest = .ok (kind, n) ↔
      ∃ text, Quoted.scanString 1 rest = .ok (text, n) ∧ kind = .string (String.ofList text) := by
  show (Quoted.scanString 1 rest).map _ = _ ↔ _
  cases Quoted.scanString 1 rest with
  | error fault => simp [Except.map]
  | ok found =>
    obtain ⟨text, length⟩ := found
    simp only [Except.map, Except.ok.injEq, Prod.mk.injEq]
    grind

theorem scan_apostrophe_eq_ok_iff {rest : List Char} {kind : Kind} {n : Nat} :
    scan '\x27' rest = .ok (kind, n) ↔ Quoted.scanCharacter rest = .ok n ∧ kind = .character := by
  show (Quoted.scanCharacter rest).map _ = _ ↔ _
  cases Quoted.scanCharacter rest with
  | error fault => simp [Except.map]
  | ok length =>
    simp only [Except.map, Except.ok.injEq, Prod.mk.injEq]
    grind

theorem scan_at_quote (behind : List Char) :
    scan '@' ('"' :: behind) =
      match Quoted.scanVerbatim behind with
      | some (text, n) => .ok (.string (String.ofList text), n + 1)
      | none => .error ⟨0, .unterminatedString⟩ :=
  rfl

theorem scan_at_name {rest : List Char} (h : rest.head? ≠ some '"') :
    scan '@' rest = atStart (scanName '@' rest) := by
  cases rest with
  | nil => rfl
  | cons d behind =>
    have hd : d ≠ '"' := by simpa using h
    simp [scan, single?, hd]

theorem scan_at_append_congr {kind : Kind} {n : Nat}
    (h : scan '@' (front ++ behind) = .ok (kind, n)) (hlength : n ≤ front.length)
    (hother : Separated other) : scan '@' (front ++ other) = .ok (kind, n) := by
  have hquote : other.head? ≠ some '"' := fun hhead => absurd (hother '"' hhead) (by decide)
  match front with
  | [] =>
    -- an `@` is no token by itself
    exfalso
    by_cases hhead : behind.head? = some '"'
    · obtain ⟨rest, rfl⟩ : ∃ rest, behind = '"' :: rest := by
        cases behind with
        | nil => simp at hhead
        | cons d rest =>
          obtain rfl : d = '"' := by simpa using hhead
          exact ⟨rest, rfl⟩
      rw [List.nil_append, scan_at_quote] at h
      split at h
      · simp only [Except.ok.injEq, Prod.mk.injEq] at h
        obtain ⟨-, rfl⟩ := h
        simp at hlength
      · cases h
    · rw [List.nil_append, scan_at_name hhead, atStart_eq_ok_iff, scanName_eq_ok_iff] at h
      rcases h with ⟨hstart, -⟩ | ⟨-, d, rest, -, -, -, rfl⟩
      · exact absurd hstart (by decide)
      · simp at hlength
  | d :: front =>
    by_cases hd : d = '"'
    · subst hd
      rw [List.cons_append, scan_at_quote] at h ⊢
      cases hscan : Quoted.scanVerbatim (front ++ behind) with
      | none =>
        rw [hscan] at h
        cases h
      | some found =>
        obtain ⟨text, m⟩ := found
        rw [hscan] at h
        simp only [Except.ok.injEq, Prod.mk.injEq] at h
        obtain ⟨rfl, rfl⟩ := h
        rw [Quoted.scanVerbatim_append_congr front hscan (by simpa using hlength) hother]
    · rw [scan_at_name (by simpa using hd), atStart_eq_ok_iff] at h ⊢
      exact scanName_append_congr h hlength hother

theorem scan_dot_append_congr {kind : Kind} {n : Nat}
    (h : scan '.' (front ++ behind) = .ok (kind, n)) (hlength : n ≤ front.length)
    (hother : Separated other) : scan '.' (front ++ other) = .ok (kind, n) := by
  have hdigit : ∀ d ∈ other.head?, d.isDigit = false := hother.head_not (by decide)
  rw [scan_dot] at h ⊢
  match front with
  | [] =>
    rw [List.nil_append] at h ⊢
    have hnone : other.head?.any Char.isDigit = false := by
      cases other with
      | nil => rfl
      | cons d other => simpa using hdigit d rfl
    rw [if_neg (by simp [hnone])]
    split at h
    · -- a number that starts with a point has a digit behind it
      next hsome =>
      exfalso
      rw [scanNumber_eq_ok_iff] at h
      obtain ⟨value, length, hscan, -, rfl⟩ := h
      have hpart := Numeral.length_le_of_literalLength (Numeral.scanDecimal_eq_ok_iff.1 hscan).1
      match behind, hsome with
      | d :: behind, hsome =>
        have hd : d.isDigit = true := by simpa using hsome
        have htwo : 2 ≤ (Numeral.decimalPart ('.' :: d :: behind)).length := by
          simp [Numeral.decimalPart, Numeral.pointPart, hd]
        simp only [List.length_nil, Nat.le_zero] at hlength
        omega
    · exact h
  | d :: front =>
    rw [List.cons_append, List.head?_cons, Option.any_some] at h ⊢
    split at h
    · next hd =>
      rw [if_pos hd]
      exact scanNumber_append_congr h hlength hother
    · next hd =>
      rw [if_neg hd]
      exact h

theorem length_le_of_pair {rest : List Char} {short : Symbol} {longer : List (Char × Symbol)}
    {kind : Kind} {n : Nat} (h : pair rest short longer = (kind, n)) : n ≤ rest.length := by
  unfold pair at h
  split at h
  · next hsome =>
    obtain ⟨-, rfl⟩ := Prod.mk.inj h
    cases rest with
    | nil => cases hsome
    | cons => simp
  · obtain ⟨-, rfl⟩ := Prod.mk.inj h
    exact Nat.zero_le _

theorem length_le_of_scanNumber {c : Char} {rest : List Char} {kind : Kind} {n : Nat}
    (h : scanNumber c rest = .ok (kind, n)) : n ≤ rest.length := by
  obtain ⟨value, length, hscan, -, rfl⟩ := scanNumber_eq_ok_iff.1 h
  have := Numeral.length_le_of_scan hscan
  rw [List.length_cons] at this
  omega

theorem length_le_of_scanName {c : Char} {rest : List Char} {kind : Kind} {n : Nat}
    (h : scanName c rest = .ok (kind, n)) : n ≤ rest.length := by
  rcases scanName_eq_ok_iff.1 h with ⟨-, -, rfl⟩ | ⟨-, d, behind, rfl, -, -, rfl⟩
  · exact (rest.takeWhile_sublist _).length_le
  · rw [List.length_cons]
    exact Nat.succ_le_succ (behind.takeWhile_sublist _).length_le

/-- A token takes no more than there is. -/
theorem length_le_of_scan {c : Char} {rest : List Char} {kind : Kind} {n : Nat}
    (h : scan c rest = .ok (kind, n)) : n ≤ rest.length := by
  cases hsingle : single? c with
  | some symbol =>
    rw [scan_single hsingle] at h
    obtain ⟨-, rfl⟩ := Prod.mk.inj (Except.ok.inj h)
    exact Nat.zero_le _
  | none =>
    by_cases hmark : c ∈ marks
    · simp only [marks, List.mem_cons, List.not_mem_nil, or_false] at hmark
      rcases hmark with rfl | rfl | rfl | rfl | rfl | rfl | rfl | rfl | rfl | rfl | rfl
      · rw [scan_equal] at h
        split at h
        · next hhead =>
          obtain ⟨-, rfl⟩ := Prod.mk.inj (Except.ok.inj h)
          cases rest with
          | nil => cases hhead
          | cons => simp
        · cases h
      · exact length_le_of_pair (Except.ok.inj h)
      · exact length_le_of_pair (Except.ok.inj h)
      · exact length_le_of_pair (Except.ok.inj h)
      · exact length_le_of_pair (Except.ok.inj h)
      · exact length_le_of_pair (Except.ok.inj h)
      · exact length_le_of_pair (Except.ok.inj h)
      · rw [scan_dot] at h
        split at h
        · exact length_le_of_scanNumber h
        · obtain ⟨-, rfl⟩ := Prod.mk.inj (Except.ok.inj h)
          exact Nat.zero_le _
      · obtain ⟨text, hscan, -⟩ := scan_quote_eq_ok_iff.1 h
        exact Quoted.length_le_of_scanString rest hscan
      · exact Quoted.length_le_of_scanCharacter (scan_apostrophe_eq_ok_iff.1 h).1
      · by_cases hhead : rest.head? = some '"'
        · match rest, hhead with
          | _ :: behind, rfl =>
            rw [scan_at_quote] at h
            split at h
            · next hscan =>
              obtain ⟨-, rfl⟩ := Prod.mk.inj (Except.ok.inj h)
              exact Nat.succ_le_succ (Quoted.length_le_of_scanVerbatim behind hscan)
            · cases h
        · rw [scan_at_name hhead, atStart_eq_ok_iff] at h
          exact length_le_of_scanName h
    · rw [scan_plain hsingle hmark] at h
      split at h
      · exact length_le_of_scanNumber h
      · exact length_le_of_scanName (atStart_eq_ok_iff.1 h)

/-- **A token that ends within `front` is the same one before a separator.** -/
theorem scan_append_congr {c : Char} {kind : Kind} {n : Nat}
    (h : scan c (front ++ behind) = .ok (kind, n)) (hlength : n ≤ front.length)
    (hother : Separated other) : scan c (front ++ other) = .ok (kind, n) := by
  cases hsingle : single? c with
  | some symbol =>
    rw [scan_single hsingle] at h ⊢
    exact h
  | none =>
    by_cases hmark : c ∈ marks
    · simp only [marks, List.mem_cons, List.not_mem_nil, or_false] at hmark
      rcases hmark with rfl | rfl | rfl | rfl | rfl | rfl | rfl | rfl | rfl | rfl | rfl
      · match front with
        | [] =>
          rw [scan_equal] at h
          split at h
          · simp only [Except.ok.injEq, Prod.mk.injEq] at h
            obtain ⟨-, rfl⟩ := h
            simp at hlength
          · cases h
        | d :: front => exact h
      · rw [scan_bang, Except.ok.injEq] at h ⊢
        exact pair_append_congr h hlength (hother.lookup_eq_none (by decide))
      · rw [scan_ampersand, Except.ok.injEq] at h ⊢
        exact pair_append_congr h hlength (hother.lookup_eq_none (by decide))
      · rw [scan_bar, Except.ok.injEq] at h ⊢
        exact pair_append_congr h hlength (hother.lookup_eq_none (by decide))
      · rw [scan_question, Except.ok.injEq] at h ⊢
        exact pair_append_congr h hlength (hother.lookup_eq_none (by decide))
      · rw [scan_less, Except.ok.injEq] at h ⊢
        exact pair_append_congr h hlength (hother.lookup_eq_none (by decide))
      · rw [scan_greater, Except.ok.injEq] at h ⊢
        exact pair_append_congr h hlength (hother.lookup_eq_none (by decide))
      · exact scan_dot_append_congr h hlength hother
      · rw [scan_quote_eq_ok_iff] at h ⊢
        obtain ⟨text, hscan, rfl⟩ := h
        exact ⟨text, Quoted.scanString_append_congr front hscan hlength, rfl⟩
      · rw [scan_apostrophe_eq_ok_iff] at h ⊢
        exact ⟨Quoted.scanCharacter_append_congr h.1 hlength, h.2⟩
      · exact scan_at_append_congr h hlength hother
    · rw [scan_plain hsingle hmark] at h ⊢
      by_cases hdigit : c.isDigit = true
      · rw [if_pos hdigit] at h ⊢
        exact scanNumber_append_congr h hlength hother
      · rw [if_neg hdigit, atStart_eq_ok_iff] at h ⊢
        exact scanName_append_congr h hlength hother

end Token

end Formula
