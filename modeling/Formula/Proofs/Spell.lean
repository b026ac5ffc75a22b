import Formula.Proofs.Lex
import Mathlib.Data.List.Infix

set_option autoImplicit false

/-! # How tokens are spelled

What a text has to look like for its tokens to be the intended ones. -/

namespace Formula.Token

/-! ## Classes of characters -/

/-- A character of a class is none of those that are not of the class. -/
theorem not_mem_of_class {p : Char → Bool} {c : Char} (h : p c = true) {others : List Char}
    (hothers : others.all (fun d => !p d) = true) : c ∉ others := by
  intro hmem
  have hnot := List.all_eq_true.1 hothers c hmem
  simp [h] at hnot

theorem isBlank_of_class {p : Char → Bool} {c : Char} (h : p c = true)
    (hblank : [' ', '\t', '\n', '\x0c', '\r'].all (fun d => !p d) = true) : isBlank c = false := by
  have hnot := not_mem_of_class h hblank
  simp only [List.mem_cons, List.not_mem_nil, or_false, not_or] at hnot
  simp [isBlank, hnot]

/-! ## Symbols -/

/-- The characters that are a token by themselves. -/
def singles : List Char := ['(', ')', '[', ']', ',', ':', '+', '-', '*', '/', '%', '^', '~']

theorem single?_eq_none {c : Char} (h : c ∉ singles) : single? c = none := by
  unfold single?
  split <;> first | rfl | exact absurd (by decide) h

theorem mem_singles {c : Char} {symbol : Symbol} (h : single? c = some symbol) : c ∈ singles := by
  by_cases hmem : c ∈ singles
  · exact hmem
  · rw [single?_eq_none hmem] at h
    cases h

/-- A symbol of one character that starts no longer one. -/
theorem Lexes.single {c : Char} {symbol : Symbol} {rest : List Char} {kinds : List Kind}
    (hsingle : single? c = some symbol) (h : Lexes rest kinds) :
    Lexes (c :: rest) (.symbol symbol :: kinds) := by
  have hblank : isBlank c = false := by
    have hall : singles.all (fun d => !isBlank d) = true := by decide
    simpa using List.all_eq_true.1 hall c (mem_singles hsingle)
  exact Lexes.token (n := 0) hblank (scan_single hsingle rest) h

/-- Parentheses around a text are tokens by themselves. -/
theorem Lexes.parenthesis {text rest : List Char} {kinds others : List Kind} (h : Lexes text kinds)
    (hrest : Lexes rest others) :
    Lexes ('(' :: (text ++ ')' :: rest))
      (.symbol .openParen :: (kinds ++ .symbol .closeParen :: others)) :=
  .single rfl (h.append (separated_cons.2 rfl) (.single rfl hrest))

/-! ## Names -/

/-- An ASCII letter or `_`, and any number of letters, digits and `_` behind it. -/
def isIdentifier : List Char → Bool
  | [] => false
  | c :: rest => isNameStart c && rest.all Numeral.isWordChar

theorem isDigit_of_isNameStart {c : Char} (h : isNameStart c = true) : c.isDigit = false := by
  simp only [isNameStart, Bool.or_eq_true, isAlpha_iff, beq_iff_eq] at h
  simp only [Char.isDigit, Bool.and_eq_false_iff, decide_eq_false_iff_not]
  rcases h with (⟨h, -⟩ | ⟨h, -⟩) | rfl
  · right
    intro hle
    exact absurd (UInt32.le_trans h hle) (by decide)
  · right
    intro hle
    exact absurd (UInt32.le_trans h hle) (by decide)
  · decide

/-- A name is read by its own rule. -/
theorem scan_isNameStart {c : Char} (h : isNameStart c = true) (rest : List Char) :
    scan c rest = .ok (.name (String.ofList (c :: rest.takeWhile Numeral.isWordChar)),
      (rest.takeWhile Numeral.isWordChar).length) := by
  rw [scan_plain (single?_eq_none (not_mem_of_class h (by decide)))
    (not_mem_of_class h (by decide)), isDigit_of_isNameStart h, if_neg (by simp),
    atStart_eq_ok_iff, scanName_eq_ok_iff]
  exact .inl ⟨h, rfl, rfl⟩

theorem takeWhile_append_of_all {p : Char → Bool} {word rest : List Char}
    (hword : word.all p = true) (hrest : ∀ c ∈ rest.head?, p c = false) :
    (word ++ rest).takeWhile p = word := by
  rw [List.takeWhile_append_of_pos (by simpa using hword)]
  cases rest with
  | nil => simp
  | cons c rest => simp [hrest c rfl]

/-- A name ends where no word character follows. -/
theorem Lexes.name {text rest : List Char} {kinds : List Kind} (hname : isIdentifier text = true)
    (hrest : ∀ c ∈ rest.head?, Numeral.isWordChar c = false) (h : Lexes rest kinds) :
    Lexes (text ++ rest) (.name (String.ofList text) :: kinds) := by
  match text with
  | c :: word =>
    obtain ⟨hstart, hword⟩ := Bool.and_eq_true_iff.1 hname
    have hscan := scan_isNameStart hstart (word ++ rest)
    rw [takeWhile_append_of_all hword hrest] at hscan
    refine Lexes.token (isBlank_of_class hstart (by decide)) hscan ?_
    show Lexes ((word ++ rest).drop word.length) kinds
    rw [List.drop_left]
    exact h

theorem exists_symbol_of_pair (rest : List Char) (short : Symbol) (longer : List (Char × Symbol)) :
    ∃ symbol n, pair rest short longer = (.symbol symbol, n) := by
  unfold pair
  split
  · exact ⟨_, _, rfl⟩
  · exact ⟨_, _, rfl⟩

/-- A token is a symbol or a literal in quotes, or the rule for numbers or that
    for names reads it. -/
theorem scan_cases {c : Char} {rest : List Char} {kind : Kind} {n : Nat}
    (h : scan c rest = .ok (kind, n)) :
    (∃ symbol, kind = .symbol symbol) ∨ (∃ text, kind = .string text) ∨ kind = .character ∨
      scanNumber c rest = .ok (kind, n) ∨ scanName c rest = .ok (kind, n) := by
  have hpair {short : Symbol} {longer : List (Char × Symbol)}
      (h : .ok (pair rest short longer) = (.ok (kind, n) : Except Fault (Kind × Nat))) :
      ∃ symbol, kind = .symbol symbol := by
    obtain ⟨symbol, n', hsymbol⟩ := exists_symbol_of_pair rest short longer
    rw [hsymbol] at h
    cases h
    exact ⟨symbol, rfl⟩
  cases hsingle : single? c with
  | some symbol =>
    rw [scan_single hsingle] at h
    cases h
    exact .inl ⟨symbol, rfl⟩
  | none =>
    by_cases hmark : c ∈ marks
    · simp only [marks, List.mem_cons, List.not_mem_nil, or_false] at hmark
      rcases hmark with rfl | rfl | rfl | rfl | rfl | rfl | rfl | rfl | rfl | rfl | rfl
      · rw [scan_equal] at h
        split at h
        · cases h
          exact .inl ⟨_, rfl⟩
        · cases h
      · exact .inl (hpair h)
      · exact .inl (hpair h)
      · exact .inl (hpair h)
      · exact .inl (hpair h)
      · exact .inl (hpair h)
      · exact .inl (hpair h)
      · rw [scan_dot] at h
        split at h
        · exact .inr (.inr (.inr (.inl h)))
        · cases h
          exact .inl ⟨_, rfl⟩
      · obtain ⟨text, -, hkind⟩ := scan_quote_eq_ok_iff.1 h
        exact .inr (.inl ⟨_, hkind⟩)
      · exact .inr (.inr (.inl (scan_apostrophe_eq_ok_iff.1 h).2))
      · by_cases hhead : rest.head? = some '"'
        · obtain ⟨behind, rfl⟩ := List.head?_eq_some_iff.1 hhead
          rw [scan_at_quote] at h
          split at h
          · cases h
            exact .inr (.inl ⟨_, rfl⟩)
          · cases h
        · rw [scan_at_name hhead] at h
          exact .inr (.inr (.inr (.inr (atStart_eq_ok_iff.1 h))))
    · rw [scan_plain hsingle hmark] at h
      split at h
      · exact .inr (.inr (.inr (.inl h)))
      · exact .inr (.inr (.inr (.inr (atStart_eq_ok_iff.1 h))))

/-- No rule but that for names reads a name. -/
theorem scanName_of_scan {c : Char} {rest : List Char} {name : String} {n : Nat}
    (h : scan c rest = .ok (.name name, n)) : scanName c rest = .ok (.name name, n) := by
  rcases scan_cases h with ⟨_, hkind⟩ | ⟨_, hkind⟩ | hkind | hnumber | hname
  · cases hkind
  · cases hkind
  · cases hkind
  · obtain ⟨_, _, -, hkind, -⟩ := scanNumber_eq_ok_iff.1 hnumber
    cases hkind
  · exact hname

/-- No rule but that for numbers reads a number. -/
theorem scanNumber_of_scan {c : Char} {rest : List Char} {value : Decimal} {n : Nat}
    (h : scan c rest = .ok (.number value, n)) : scanNumber c rest = .ok (.number value, n) := by
  rcases scan_cases h with ⟨_, hkind⟩ | ⟨_, hkind⟩ | hkind | hnumber | hname
  · cases hkind
  · cases hkind
  · cases hkind
  · exact hnumber
  · rcases scanName_eq_ok_iff.1 hname with ⟨-, hkind, -⟩ | ⟨-, _, _, -, -, hkind, -⟩
    · cases hkind
    · cases hkind

/-- A name is spelled as it is, with or without an `@` in front. -/
theorem spelling_of_scan {c : Char} {rest : List Char} {name : String} {n : Nat}
    (h : scan c rest = .ok (.name name, n)) :
    isIdentifier name.toList = true ∧
      (c :: rest = name.toList ++ rest.drop n ∨
        c :: rest = '@' :: (name.toList ++ rest.drop n)) := by
  have hword (text : List Char) :=
    List.prefix_append_drop (text.takeWhile_prefix Numeral.isWordChar)
  rcases scanName_eq_ok_iff.1 (scanName_of_scan h) with
    ⟨hstart, hname, rfl⟩ | ⟨rfl, d, behind, rfl, hstart, hname, rfl⟩
  · obtain rfl := Kind.name.inj hname
    rw [String.toList_ofList]
    refine ⟨by simp [isIdentifier, hstart], .inl ?_⟩
    rw [List.cons_append, ← hword]
  · obtain rfl := Kind.name.inj hname
    rw [String.toList_ofList]
    refine ⟨by simp [isIdentifier, hstart], .inr ?_⟩
    rw [List.drop_succ_cons, List.cons_append, ← hword]

/-- No name starts with an `@`. -/
theorem at_ne_identifier {text : List Char} (h : isIdentifier text = true)
    (others rest : List Char) :
    text ++ rest ≠ '@' :: others := by
  match text with
  | c :: word =>
    intro heq
    obtain ⟨hstart, -⟩ := Bool.and_eq_true_iff.1 h
    obtain ⟨rfl, -⟩ := List.cons.inj heq
    exact absurd hstart (by decide)

end Formula.Token
