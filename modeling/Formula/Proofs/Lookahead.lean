import Formula.Proofs.Cursor
import Formula.Proofs.Word

set_option autoImplicit false

/-! # Conversions by their index

The end of a conversion is looked for ahead of the place, at indices that go up by themselves. What
is found are the tokens from the operand on, and the index never goes behind the end of the text. -/

namespace Formula.Cursor

open Token (Kind)
open Bytes (Lexeme)

variable {tokens : List Token} (stop : Nat) {i : Nat}

/-! ## Tokens by their index -/

@[simp]
theorem length_lexemesOf : (lexemesOf tokens stop).length = tokens.length + 1 := by
  simp [lexemesOf]

/-- The lexeme in front of the tokens `rest`. -/
def headLexeme (rest : List Token) (stop : Nat) : Lexeme :=
  ⟨rest.head?.map Token.kind, (rest.head?.map Token.position).getD stop⟩

/-- A kind in front is that of a token. -/
theorem cons_of_headLexeme {rest : List Token} {kind : Kind}
    (h : (headLexeme rest stop).kind = some kind) :
    ∃ position tail, rest = ⟨kind, position⟩ :: tail := by
  cases rest with
  | nil => cases h
  | cons token tail =>
    cases h
    exact ⟨token.position, tail, rfl⟩

/-- At every index up to the end of the text there is a lexeme. -/
theorem getElem?_lexemesOf (h : i ≤ tokens.length) :
    (lexemesOf tokens stop)[i]? = some (headLexeme (tokens.drop i) stop) := by
  rw [headLexeme, List.head?_drop, lexemesOf]
  rcases Nat.lt_or_eq_of_le h with hlt | rfl
  · rw [List.getElem?_append_left (by simpa using hlt)]
    simp [hlt]
  · simp

theorem getElem?_of_drop {rest : List Token} (hrest : tokens.drop i = rest)
    (h : i ≤ tokens.length) :
    (lexemesOf tokens stop)[i]? = some (headLexeme rest stop) := by
  rw [getElem?_lexemesOf stop h, hrest]

theorem drop_add {rest : List Token} (hrest : tokens.drop i = rest) (n : Nat) :
    tokens.drop (i + n) = rest.drop n := by
  rw [← hrest, List.drop_drop]

/-- So many tokens are left at an index. -/
theorem add_length_of_drop {rest : List Token} (hrest : tokens.drop i = rest)
    (h : i ≤ tokens.length) :
    i + rest.length = tokens.length := by
  rw [← hrest, List.length_drop]
  omega

/-! ## Members and brackets -/

section Runs

variable {lexemes : List Lexeme} {first second : Lexeme}

theorem membersEnd_of_ne (qualified : Bool) (hfirst : lexemes[i]? = some first)
    (hdot : first.kind ≠ some (.symbol .dot)) :
    membersEnd lexemes i qualified = some (i, qualified) := by
  rw [membersEnd]
  split
  · next heq => rw [heq] at hfirst; cases hfirst
  · next heq =>
    rw [heq] at hfirst
    cases hfirst
    exact if_neg hdot

theorem membersEnd_of_name {name : String} (qualified : Bool) (hfirst : lexemes[i]? = some first)
    (hdot : first.kind = some (.symbol .dot)) (hsecond : lexemes[i + 1]? = some second)
    (hname : second.kind = some (.name name)) :
    membersEnd lexemes i qualified = membersEnd lexemes (i + 2) true := by
  rw [membersEnd]
  split
  · next heq => rw [heq] at hfirst; cases hfirst
  · next heq =>
    rw [heq] at hfirst
    cases hfirst
    simp only [hdot, if_true, hsecond, hname]

theorem membersEnd_of_ne_name (qualified : Bool) (hfirst : lexemes[i]? = some first)
    (hdot : first.kind = some (.symbol .dot)) (hsecond : lexemes[i + 1]? = some second)
    (hother : ∀ name, second.kind ≠ some (.name name)) :
    membersEnd lexemes i qualified = some (i, qualified) := by
  rw [membersEnd]
  split
  · next heq => rw [heq] at hfirst; cases hfirst
  · next heq =>
    rw [heq] at hfirst
    cases hfirst
    simp only [hdot, if_true, hsecond]

theorem bracketsEnd_of_ne (hfirst : lexemes[i]? = some first)
    (hopen : first.kind ≠ some (.symbol .openBracket)) : bracketsEnd lexemes i = some i := by
  rw [bracketsEnd]
  split
  · next heq => rw [heq] at hfirst; cases hfirst
  · next heq =>
    rw [heq] at hfirst
    cases hfirst
    exact if_neg hopen

theorem bracketsEnd_of_open (hfirst : lexemes[i]? = some first)
    (hopen : first.kind = some (.symbol .openBracket)) (hsecond : lexemes[i + 1]? = some second) :
    bracketsEnd lexemes i =
      if second.kind = some (.symbol .closeBracket) then bracketsEnd lexemes (i + 2)
        else some i := by
  rw [bracketsEnd]
  split
  · next heq => rw [heq] at hfirst; cases hfirst
  · next heq =>
    rw [heq] at hfirst
    cases hfirst
    rw [if_pos hopen]
    simp only [hsecond]

end Runs

theorem length_memberNames_le (rest : List Token) :
    2 * (memberNames rest).length ≤ rest.length := by
  fun_induction memberNames rest with
  | case1 p name q rest ih =>
    simp only [List.length_cons]
    omega
  | case2 rest hother => exact Nat.zero_le _

theorem membersEnd_eq (rest : List Token) (qualified : Bool) (hrest : tokens.drop i = rest)
    (h : i ≤ tokens.length) :
    membersEnd (lexemesOf tokens stop) i qualified =
      some (i + 2 * (memberNames rest).length, qualified || !(memberNames rest).isEmpty) := by
  have hlength := add_length_of_drop hrest h
  fun_induction memberNames rest generalizing i qualified with
  | case1 p name q rest ih =>
    simp only [List.length_cons] at hlength
    have htail : tokens.drop (i + 2) = rest := drop_add hrest 2
    rw [membersEnd_of_name qualified (getElem?_of_drop stop hrest h) rfl
        (getElem?_of_drop stop (drop_add hrest 1) (by omega)) rfl,
      ih true htail (by omega) (by omega)]
    simp [Nat.mul_add]
    omega
  | case2 rest hother =>
    simp only [List.length_nil, Nat.mul_zero, Nat.add_zero, List.isEmpty_nil, Bool.not_true,
      Bool.or_false]
    by_cases hdot : (headLexeme rest stop).kind = some (.symbol .dot)
    · obtain ⟨p, tail, rfl⟩ := cons_of_headLexeme stop hdot
      simp only [List.length_cons] at hlength
      refine membersEnd_of_ne_name qualified (getElem?_of_drop stop hrest h) hdot
        (getElem?_of_drop stop (drop_add hrest 1) (by omega)) fun name hname => ?_
      obtain ⟨q, tail, rfl⟩ := cons_of_headLexeme stop hname
      exact hother _ _ _ _ rfl
    · exact membersEnd_of_ne qualified (getElem?_of_drop stop hrest h) hdot

/-- An optional `?` ends at an index that is not behind the end of the text. -/
theorem exists_markEnd (rest : List Token) (hrest : tokens.drop i = rest) (h : i ≤ tokens.length) :
    ∃ j, markEnd (lexemesOf tokens stop) i = some j ∧ tokens.drop j = dropQuestion rest ∧
      i ≤ j ∧ j ≤ tokens.length := by
  have hlength := add_length_of_drop hrest h
  rw [markEnd, getElem?_of_drop stop hrest h, Option.map_some]
  by_cases hquestion : (headLexeme rest stop).kind = some (.symbol .question)
  · rw [if_pos hquestion]
    obtain ⟨p, tail, rfl⟩ := cons_of_headLexeme stop hquestion
    simp only [List.length_cons] at hlength
    exact ⟨i + 1, rfl, drop_add hrest 1, by omega, by omega⟩
  · rw [if_neg hquestion]
    refine ⟨i, rfl, ?_, Nat.le_refl i, h⟩
    rw [hrest]
    unfold dropQuestion
    split
    · exact absurd rfl hquestion
    · rfl

/-- Any number of `[]` end at an index that is not behind the end of the text. -/
theorem exists_bracketsEnd (rest : List Token) (hrest : tokens.drop i = rest)
    (h : i ≤ tokens.length) :
    ∃ j, bracketsEnd (lexemesOf tokens stop) i = some j ∧ tokens.drop j = dropBrackets rest ∧
      i ≤ j ∧ j ≤ tokens.length := by
  have hlength := add_length_of_drop hrest h
  fun_induction dropBrackets rest generalizing i with
  | case1 p q rest ih =>
    simp only [List.length_cons] at hlength
    have htail : tokens.drop (i + 2) = rest := drop_add hrest 2
    rw [bracketsEnd_of_open (getElem?_of_drop stop hrest h) rfl
      (getElem?_of_drop stop (drop_add hrest 1) (by omega))]
    obtain ⟨j, hend, hdrop, hle, hj⟩ := ih htail (by omega) (by omega)
    exact ⟨j, hend, hdrop, by omega, hj⟩
  | case2 rest hother =>
    refine ⟨i, ?_, hrest, Nat.le_refl i, h⟩
    by_cases hopen : (headLexeme rest stop).kind = some (.symbol .openBracket)
    · obtain ⟨p, tail, rfl⟩ := cons_of_headLexeme stop hopen
      simp only [List.length_cons] at hlength
      rw [bracketsEnd_of_open (getElem?_of_drop stop hrest h) hopen
        (getElem?_of_drop stop (drop_add hrest 1) (by omega))]
      refine if_neg fun hclose => ?_
      obtain ⟨q, tail, rfl⟩ := cons_of_headLexeme stop hclose
      exact hother _ _ _ rfl
    · exact bracketsEnd_of_ne (getElem?_of_drop stop hrest h) hopen

/-! ## Conversions -/

/-- Behind an opening parenthesis and a name. -/
theorem castEnd_name {place position : Nat} {name : String} {tail : List Token}
    (hrest : tokens.drop (place + 1) = ⟨.name name, position⟩ :: tail)
    (hplace : place < tokens.length) :
    (castEnd (lexemesOf tokens stop) place).map (tokens.drop ·) =
        conversionOperand? (⟨.name name, position⟩ :: tail) ∧
      ∀ next ∈ castEnd (lexemesOf tokens stop) place, place < next ∧ next ≤ tokens.length := by
  have hlength := add_length_of_drop hrest hplace
  have hnames := length_memberNames_le tail
  simp only [List.length_cons] at hlength
  have htail : tokens.drop (place + 2) = tail := drop_add hrest 1
  have hmembers := membersEnd_eq stop tail false htail (by omega)
  obtain ⟨afterMark, hmark, hdropMark, hleMark, hafterMark⟩ :=
    exists_markEnd stop _ (drop_add htail (2 * (memberNames tail).length)) (by omega)
  obtain ⟨close, hclose, hdropClose, hleClose, hcloseLength⟩ :=
    exists_bracketsEnd stop _ hdropMark hafterMark
  have hcloseSum := add_length_of_drop hdropClose hcloseLength
  have hlast := getElem?_of_drop stop hdropClose hcloseLength
  simp only [castEnd, getElem?_of_drop stop hrest hplace, hmembers, hmark, hclose, hlast,
    conversionOperand?, headLexeme, Option.bind_eq_bind, Option.bind_some, List.head?_cons,
    Option.map_some, Bool.false_or, Bool.not_not]
  generalize dropBrackets (dropQuestion (tail.drop (2 * (memberNames tail).length))) = behind at *
  cases behind with
  | nil => simp
  | cons token operand =>
    obtain ⟨kind, closing⟩ := token
    simp only [List.length_cons] at hcloseSum
    have hoperand := getElem?_of_drop stop (drop_add hdropClose 1) (by omega)
    have hdropOperand : tokens.drop (close + 1) = operand := drop_add hdropClose 1
    simp only [List.drop_succ_cons, List.drop_zero] at hoperand
    simp only [hoperand, headLexeme, Option.bind_some, Option.any_map, List.head?_cons,
      Option.map_some, Option.some.injEq]
    by_cases hparen : kind = .symbol .closeParen
    · subst hparen
      cases isKeyword name with
      | true => simp
      | false =>
        simp only [Bool.false_eq_true, if_false, if_true, Bool.not_false, Bool.true_and]
        split
        · simp only [Option.map_some, hdropOperand, true_and, Option.mem_some_iff, forall_eq']
          omega
        · simp
    · simp only [hparen, if_false, ite_self]
      split
      · next heq =>
        obtain ⟨htoken, -⟩ := List.cons.inj heq
        cases htoken
        exact absurd rfl hparen
      · simp

/-- The operand of a conversion starts where the conversion ends. -/
theorem castEnd_eq (tokens : List Token) (stop place : Nat) :
    (castEnd (lexemesOf tokens stop) place).map (tokens.drop ·) =
        conversionOperand? (tokens.drop (place + 1)) ∧
      ∀ next ∈ castEnd (lexemesOf tokens stop) place, place < next ∧ next ≤ tokens.length := by
  rcases Nat.lt_or_ge place tokens.length with hplace | hplace
  · generalize hrest : tokens.drop (place + 1) = rest
    cases rest with
    | nil => simp [castEnd, getElem?_of_drop stop hrest hplace, headLexeme, conversionOperand?]
    | cons token tail =>
      obtain ⟨kind, position⟩ := token
      cases kind with
      | name name => exact castEnd_name stop hrest hplace
      | _ => simp [castEnd, getElem?_of_drop stop hrest hplace, headLexeme, conversionOperand?]
  · have hnone : (lexemesOf tokens stop)[place + 1]? = none := by
      rw [List.getElem?_eq_none_iff, length_lexemesOf]
      omega
    have hrest : tokens.drop (place + 1) = [] := List.drop_of_length_le (by omega)
    simp [castEnd, hnone, hrest, conversionOperand?]

theorem conversionAt?_drop (place : Nat) :
    conversionAt? (tokens.drop place) =
      if (headLexeme (tokens.drop place) stop).kind = some (.symbol .openParen) then
        conversionOperand? (tokens.drop (place + 1))
      else none := by
  generalize hrest : tokens.drop place = rest
  by_cases hopen : (headLexeme rest stop).kind = some (.symbol .openParen)
  · rw [if_pos hopen]
    obtain ⟨p, tail, rfl⟩ := cons_of_headLexeme stop hopen
    rw [drop_add hrest 1]
    rfl
  · rw [if_neg hopen]
    unfold conversionAt?
    split
    · exact absurd rfl hopen
    · rfl

/-- Where a conversion comes next, its end is found. -/
theorem exists_castEnd {place : Nat} {operand : List Token}
    (h : conversionAt? (tokens.drop place) = some operand) :
    (headLexeme (tokens.drop place) stop).kind = some (.symbol .openParen) ∧
      ∃ next, castEnd (lexemesOf tokens stop) place = some next ∧ tokens.drop next = operand ∧
        place < next ∧ next ≤ tokens.length := by
  rw [conversionAt?_drop stop] at h
  split at h
  · next hopen =>
    obtain ⟨hmap, hbounds⟩ := castEnd_eq tokens stop place
    rw [h, Option.map_eq_some_iff] at hmap
    obtain ⟨next, hnext, hdrop⟩ := hmap
    exact ⟨hopen, next, hnext, hdrop, hbounds next hnext⟩
  · cases h

/-- Where none comes next, no end is found. -/
theorem castEnd_eq_none {place : Nat} (h : conversionAt? (tokens.drop place) = none)
    (hopen : (headLexeme (tokens.drop place) stop).kind = some (.symbol .openParen)) :
    castEnd (lexemesOf tokens stop) place = none := by
  rw [conversionAt?_drop stop, if_pos hopen] at h
  obtain ⟨hmap, -⟩ := castEnd_eq tokens stop place
  rw [h] at hmap
  exact Option.map_eq_none_iff.1 hmap

end Formula.Cursor
