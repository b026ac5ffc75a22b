import Formula.Proofs.Display
import Formula.Proofs.Recognition

set_option autoImplicit false

/-! # Any text can be quoted

There are two ways to write a text as a literal: as a string, with escapes for the characters that
would end it or start an escape, and as a verbatim string, with its quotes doubled. Both are read
back as the text, whatever its characters are. -/

namespace Formula

/-! ## Reading what is quoted -/

namespace Quoted

/-- A character as it stands in a string. -/
def escaped (c : Char) : List Char :=
  match c with
  | '\\' => ['\\', '\\']
  | '"' => ['\\', '"']
  | '\n' => ['\\', 'n']
  | c => [c]

/-- A character as it stands in a verbatim string. -/
def doubled (c : Char) : List Char :=
  match c with
  | '"' => ['"', '"']
  | c => [c]

/-- A character is an escape, or it stands for itself. -/
theorem escaped_cases (c : Char) :
    (∃ e, escaped c = ['\\', e] ∧ escape? e = some c) ∨
      (escaped c = [c] ∧ c ≠ '"' ∧ c ≠ '\n' ∧ c ≠ '\\') := by
  unfold escaped
  split
  · exact .inl ⟨'\\', rfl, rfl⟩
  · exact .inl ⟨'"', rfl, rfl⟩
  · exact .inl ⟨'n', rfl, rfl⟩
  · next hescape hquote hline => exact .inr ⟨rfl, hquote, hline, hescape⟩

theorem doubled_of_ne {c : Char} (h : c ≠ '"') : doubled c = [c] := by
  unfold doubled
  split
  · exact absurd rfl h
  · rfl

/-- A string is read up to the quote behind its escaped characters. -/
theorem scanString_escaped (text rest : List Char) (offset : Nat) :
    scanString offset (text.flatMap escaped ++ '"' :: rest) =
      .ok (text, (text.flatMap escaped).length + 1) := by
  induction text generalizing offset with
  | nil =>
    rw [List.flatMap_nil, List.nil_append, scanString_cons_eq_ok_iff]
    exact .inl ⟨rfl, rfl, rfl⟩
  | cons c text ih =>
    rw [List.flatMap_cons, List.append_assoc]
    rcases escaped_cases c with ⟨e, hescaped, he⟩ | ⟨hescaped, hquote, hline, hescape⟩
    · rw [hescaped, List.cons_append, scanString_cons_eq_ok_iff]
      exact .inr (.inl ⟨rfl, e, _, c, text, _, rfl, he, ih (offset + 2), rfl, by simp +arith⟩)
    · rw [hescaped, List.cons_append, scanString_cons_eq_ok_iff]
      exact .inr (.inr ⟨hquote, hline, hescape, text, _, ih (offset + c.utf8Size), rfl,
        by simp +arith⟩)

/-- A verbatim string is read up to the quote behind its doubled quotes. -/
theorem scanVerbatim_doubled (text : List Char) {rest : List Char} (hrest : rest.head? ≠ some '"') :
    scanVerbatim (text.flatMap doubled ++ '"' :: rest) =
      some (text, (text.flatMap doubled).length + 1) := by
  induction text with
  | nil =>
    rw [List.flatMap_nil, List.nil_append, scanVerbatim_cons_eq_some_iff]
    exact .inl ⟨rfl, hrest, rfl, rfl⟩
  | cons c text ih =>
    rw [List.flatMap_cons, List.append_assoc]
    by_cases hquote : c = '"'
    · subst hquote
      show scanVerbatim ('"' :: '"' :: (text.flatMap doubled ++ '"' :: rest)) = _
      rw [scanVerbatim_cons_eq_some_iff]
      exact .inr (.inl ⟨rfl, _, text, _, rfl, ih, rfl, by simp +arith [doubled]⟩)
    · rw [doubled_of_ne hquote, List.singleton_append, scanVerbatim_cons_eq_some_iff]
      exact .inr (.inr ⟨hquote, text, _, ih, rfl, by simp +arith⟩)

/-- A text as a string. -/
def stringLiteral (s : String) : String :=
  String.ofList ('"' :: (s.toList.flatMap escaped ++ ['"']))

/-- A text as a verbatim string. -/
def verbatimLiteral (s : String) : String :=
  String.ofList ('@' :: '"' :: (s.toList.flatMap doubled ++ ['"']))

end Quoted

/-! ## Whole texts -/

namespace Token

theorem lexes_stringLiteral (s : String) : Lexes (Quoted.stringLiteral s).toList [.string s] := by
  have hscan := scan_quote_eq_ok_iff.2 ⟨_, Quoted.scanString_escaped s.toList [] 1, rfl⟩
  rw [Quoted.stringLiteral, String.toList_ofList]
  rw [String.ofList_toList] at hscan
  refine .token rfl hscan ?_
  rw [List.drop_of_length_le (by simp)]
  exact lexes_nil

theorem lexes_verbatimLiteral (s : String) :
    Lexes (Quoted.verbatimLiteral s).toList [.string s] := by
  have hscan := scan_at_quote (s.toList.flatMap Quoted.doubled ++ ['"'])
  rw [Quoted.scanVerbatim_doubled s.toList (by simp)] at hscan
  dsimp only at hscan
  rw [String.ofList_toList] at hscan
  rw [Quoted.verbatimLiteral, String.toList_ofList]
  refine .token rfl hscan ?_
  rw [List.drop_of_length_le (by simp)]
  exact lexes_nil

end Token

/-- A string literal is parsed to the text that it quotes. -/
theorem parse_of_lexes_string {text : String} {s : String}
    (h : Token.Lexes text.toList [.string s]) :
    parse text = .ok (.constant (.string s)) := by
  obtain ⟨tokens, htokens, hkinds⟩ := h
  obtain ⟨token, rfl, hkind⟩ := List.map_eq_singleton_iff.1 hkinds
  refine parse_of_primary htokens (by simp [hkind]) ?_
  rw [hkind]
  exact .string s []

/-- Every text is parsed from its string and from its verbatim string. -/
theorem parse_quoted (s : String) :
    parse (Quoted.stringLiteral s) = .ok (.constant (.string s)) ∧
      parse (Quoted.verbatimLiteral s) = .ok (.constant (.string s)) :=
  ⟨parse_of_lexes_string (Token.lexes_stringLiteral s),
    parse_of_lexes_string (Token.lexes_verbatimLiteral s)⟩

end Formula
