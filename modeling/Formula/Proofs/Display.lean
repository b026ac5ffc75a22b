import Formula.Expr.Render
import Formula.Proofs.DecimalText
import Formula.Proofs.Spell
import Formula.Proofs.Grammar

set_option autoImplicit false

/-! # The tokens of displayed parts

What a tree shows of a number, of a string or of a name is read as just one token, and of a dotted
name as one for each name and for each dot. -/

namespace Formula

/-! ## Numbers -/

namespace Numeral

theorem takeWhile_digits {digits rest : List Char} (hdigits : ∀ c ∈ digits, c.isDigit = true)
    (hrest : ∀ c ∈ rest.head?, c.isDigit = false) :
    (digits ++ rest).takeWhile Char.isDigit = digits :=
  Token.takeWhile_append_of_all (by simpa using hdigits) hrest

theorem pointPart_pointed (d : Decimal) : pointPart d.pointed = d.pointed := by
  rw [Decimal.pointed]
  split
  · rfl
  · next hscale =>
    have hfraction : d.fraction.takeWhile Char.isDigit = d.fraction := by
      simpa using takeWhile_digits d.isDigit_of_mem_fraction (by simp : ∀ c ∈ [].head?, _)
    have hne : d.fraction.isEmpty = false := by
      have hlength := d.length_fraction
      rw [List.isEmpty_eq_false_iff]
      rintro hnil
      rw [hnil] at hlength
      exact hscale hlength.symm
    simp only [pointPart, hfraction, hne, Bool.false_eq_true, if_false]

/-- A written number is a numeral to its end. -/
theorem decimalPart_write {d : Decimal} (h : d.negative = false) :
    decimalPart d.write.toList = d.write.toList := by
  have hpointed : ∀ c ∈ d.pointed.head?, c.isDigit = false := by
    rw [Decimal.pointed]
    split
    · simp
    · intro c hc
      obtain rfl := Option.some.inj hc
      rfl
  rw [Decimal.toList_write h]
  unfold decimalPart
  dsimp only
  rw [takeWhile_digits d.isDigit_of_mem_whole hpointed, List.drop_left, pointPart_pointed,
    List.drop_length, exponentPart, List.append_nil]

theorem scanDecimal_write {d : Decimal} (h : d.negative = false) :
    scanDecimal d.write.toList = .ok (d, d.write.toList.length) := by
  rw [scanDecimal_eq_ok_iff, decimalPart_write h, List.drop_length]
  exact ⟨rfl, Decimal.readChars?_write fun _ => h⟩

theorem scan_write {d : Decimal} (h : d.negative = false) :
    scan d.write.toList = .ok (d, d.write.toList.length) := by
  have hchars := Decimal.isDigit_or_point_of_mem_write h
  rw [← scanDecimal_write h]
  unfold scan
  split
  · next text heq =>
    rcases hchars 'x' (by simp [heq]) with hdigit | hpoint
    · exact absurd hdigit (by decide)
    · exact absurd hpoint (by decide)
  · next text heq =>
    rcases hchars 'X' (by simp [heq]) with hdigit | hpoint
    · exact absurd hdigit (by decide)
    · exact absurd hpoint (by decide)
  · rfl

end Numeral

namespace Token

theorem lexes_write {d : Decimal} (h : d.negative = false) : Lexes d.write.toList [.number d] := by
  obtain ⟨c, rest, htext, hc⟩ := Decimal.exists_digit_write h
  have hscan := Numeral.scan_write h
  rw [htext] at hscan ⊢
  have htoken : scan c rest = .ok (.number d, rest.length) := by
    rw [scan_plain (single?_eq_none (not_mem_of_class hc (by decide)))
      (not_mem_of_class hc (by decide)), if_pos hc, scanNumber_eq_ok_iff]
    exact ⟨d, _, hscan, rfl, by simp⟩
  refine .token (isBlank_of_class hc (by decide)) htoken ?_
  rw [List.drop_length]
  exact lexes_nil

end Token

/-! ## Strings -/

/-- A text without quotes, escapes or line breaks is read up to the quote behind it. -/
theorem Quoted.scanString_plain {text : List Char} (offset : Nat)
    (htext : ∀ c ∈ text, c ≠ '"' ∧ c ≠ '\\' ∧ c ≠ '\n') :
    scanString offset (text ++ ['"']) = .ok (text, text.length + 1) := by
  induction text generalizing offset with
  | nil => rfl
  | cons c text ih =>
    obtain ⟨hquote, hescape, hline⟩ := htext c (List.mem_cons_self ..)
    have hrest := ih (offset + c.utf8Size) fun d hd => htext d (List.mem_cons_of_mem c hd)
    rw [List.cons_append, scanString_cons_eq_ok_iff]
    exact .inr (.inr ⟨hquote, hline, hescape, text, text.length + 1, hrest, rfl, rfl⟩)

namespace Token

theorem lexes_quoted {text : String} (htext : ∀ c ∈ text.toList, c ≠ '"' ∧ c ≠ '\\' ∧ c ≠ '\n') :
    Lexes ('"' :: (text.toList ++ ['"'])) [.string text] := by
  have hscan : scan '"' (text.toList ++ ['"']) = .ok (.string text, text.toList.length + 1) :=
    scan_quote_eq_ok_iff.2 ⟨text.toList, Quoted.scanString_plain 1 htext,
      by rw [String.ofList_toList]⟩
  refine .token rfl hscan ?_
  rw [List.drop_of_length_le (by simp)]
  exact lexes_nil

/-! ## Symbols -/

theorem lexes_symbol (symbol : Symbol) : Lexes symbol.text.toList [.symbol symbol] := by
  have hlex : lex 0 symbol.text.toList = .ok [⟨.symbol symbol, 0⟩] := by
    cases symbol <;> decide +kernel
  exact ⟨_, hlex, rfl⟩

/-! ## Names -/

theorem lexes_identifier {name : String} (h : isIdentifier name.toList = true) :
    Lexes name.toList [.name name] := by
  have hname : Lexes (name.toList ++ []) [.name (String.ofList name.toList)] :=
    .name h (by simp) lexes_nil
  rwa [List.append_nil, String.ofList_toList] at hname

/-- An `@` in front of a name does not belong to it. -/
theorem lexes_verbatim {name : String} (h : isIdentifier name.toList = true) :
    Lexes ('@' :: name.toList) [.name name] := by
  obtain ⟨d, word, hname⟩ : ∃ d word, name.toList = d :: word := by
    match name.toList, h with
    | d :: word, _ => exact ⟨d, word, rfl⟩
  rw [hname] at h ⊢
  obtain ⟨hstart, hword⟩ := Bool.and_eq_true_iff.1 h
  have hwhole : word.takeWhile Numeral.isWordChar = word :=
    List.takeWhile_eq_self_iff.2 (by simpa using hword)
  have hquote : (d :: word).head? ≠ some '"' := by
    rintro hhead
    obtain rfl := Option.some.inj hhead
    exact absurd hstart (by decide)
  have hscan : scan '@' (d :: word) = .ok (.name name, word.length + 1) := by
    rw [scan_at_name hquote, atStart_eq_ok_iff, scanName_eq_ok_iff]
    refine .inr ⟨rfl, d, word, rfl, hstart, ?_, ?_⟩
    · rw [hwhole, ← hname, String.ofList_toList]
    · rw [hwhole]
  refine Lexes.token (by decide) hscan ?_
  rw [List.drop_succ_cons, List.drop_length]
  exact lexes_nil

/-- The text of names behind each other, each behind a dot. -/
def memberText : List String → List Char
  | [] => []
  | name :: names => '.' :: (name.toList ++ memberText names)

/-- The tokens of names behind each other, each behind a dot. -/
def memberKinds : List String → List Kind
  | [] => []
  | name :: names => .symbol .dot :: .name name :: memberKinds names

theorem members_memberKinds (names : List String) (rest : List Kind) :
    Grammar.Members (memberKinds names ++ rest) names rest := by
  induction names with
  | nil => exact .done rest
  | cons name names ih => exact .more name ih

theorem memberText_head (names : List String) {rest : List Char}
    (hrest : ∀ c ∈ rest.head?, Numeral.isWordChar c = false) :
    ∀ c ∈ (memberText names ++ rest).head?, Numeral.isWordChar c = false := by
  intro c hc
  cases names with
  | nil => exact hrest c hc
  | cons name names =>
    obtain rfl : '.' = c := Option.some.inj hc
    decide

/-- Members end where no word character follows. -/
theorem lexes_memberText {names : List String}
    (hnames : ∀ name ∈ names, isIdentifier name.toList = true) {rest : List Char}
    {kinds : List Kind}
    (hrest : ∀ c ∈ rest.head?, Numeral.isWordChar c = false) (h : Lexes rest kinds) :
    Lexes (memberText names ++ rest) (memberKinds names ++ kinds) := by
  induction names with
  | nil => exact h
  | cons name names ih =>
    have hname := hnames name (List.mem_cons_self ..)
    have hothers := ih fun other hother => hnames other (List.mem_cons_of_mem name hother)
    have htail := Lexes.name hname (memberText_head names hrest) hothers
    rw [String.ofList_toList] at htail
    -- a dot starts a number only in front of a digit
    have hdot : scan '.' (name.toList ++ (memberText names ++ rest)) = .ok (.symbol .dot, 0) := by
      rw [scan_dot, if_neg]
      generalize name.toList = text at hname
      match text with
      | c :: word =>
        obtain ⟨hstart, -⟩ := Bool.and_eq_true_iff.1 hname
        simpa using isDigit_of_isNameStart hstart
    rw [memberText, List.cons_append, List.append_assoc]
    exact .token rfl hdot htail

theorem toList_intercalate_dot (first : String) (others : List String) :
    (String.intercalate "." (first :: others)).toList = first.toList ++ memberText others := by
  rw [String.toList_intercalate]
  induction others generalizing first with
  | nil => simp [memberText]
  | cons name names ih =>
    rw [List.map_cons, List.map_cons, List.intercalate_cons_cons, ← List.map_cons, ih name]
    simp [memberText]

/-- A dotted name is read as its names and the dots between them, and ends where no word character
    follows. -/
theorem lexes_dotted {first : String} {others : List String}
    (hfirst : isIdentifier first.toList = true)
    (hothers : ∀ name ∈ others, isIdentifier name.toList = true) {rest : List Char}
    {kinds : List Kind} (hrest : ∀ c ∈ rest.head?, Numeral.isWordChar c = false)
    (h : Lexes rest kinds) :
    Lexes ((String.intercalate "." (first :: others)).toList ++ rest)
      (.name first :: (memberKinds others ++ kinds)) := by
  have hlexes := Lexes.name hfirst (memberText_head others hrest) (lexes_memberText hothers hrest h)
  rwa [String.ofList_toList, ← List.append_assoc, ← toList_intercalate_dot] at hlexes

end Token

end Formula
