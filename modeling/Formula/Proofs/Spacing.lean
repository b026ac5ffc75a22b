import Formula.Proofs.Display

set_option autoImplicit false

/-! # Words with spaces between them

Names and symbols are read back as they are written as long as a space stands between each two
of them. So there is a text for every row of such tokens, and a separator in front of it can be
put behind any other text. -/

namespace Formula.Token

/-- A name, a name with an `@` in front, or a symbol. -/
inductive Word where
  | name (text : String) (isIdentifier : isIdentifier text.toList = true)
  | verbatim (text : String) (isIdentifier : isIdentifier text.toList = true)
  | mark (symbol : Symbol)

namespace Word

/-- How a word is written. -/
def text : Word → String
  | name text _ => text
  | verbatim text _ => "@" ++ text
  | mark symbol => symbol.text

/-- What a word says. -/
def kind : Word → Kind
  | name text _ | verbatim text _ => .name text
  | mark symbol => .symbol symbol

theorem lexes_text (word : Word) : Lexes word.text.toList [word.kind] := by
  cases word with
  | name text isIdentifier => exact lexes_identifier isIdentifier
  | verbatim text isIdentifier =>
    have htext : ("@" ++ text).toList = '@' :: text.toList := by
      rw [String.toList_append]
      rfl
    rw [Word.text, htext]
    exact lexes_verbatim isIdentifier
  | mark symbol => exact lexes_symbol symbol

end Word

/-! ## Words behind a text -/

/-- Words with one or more spaces in front of each. -/
inductive Behind : List Word → List Char → Prop where
  | done : Behind [] []
  | more {words : List Word} {text : List Char} (spaces : Nat) (word : Word)
      (others : Behind words text) :
      Behind (word :: words) (' ' :: (List.replicate spaces ' ' ++ (word.text.toList ++ text)))

theorem Behind.separated {words : List Word} {text : List Char} (h : Behind words text) :
    Separated text := by
  cases h with
  | done =>
    intro c hc
    cases hc
  | more => exact separated_cons.2 rfl

theorem Lexes.spaces {text : List Char} {kinds : List Kind} (spaces : Nat) (h : Lexes text kinds) :
    Lexes (List.replicate spaces ' ' ++ text) kinds := by
  induction spaces with
  | zero => exact h
  | succ spaces ih => exact ih.blank rfl

theorem Behind.lexes {words : List Word} {text : List Char} (h : Behind words text) :
    Lexes text (words.map Word.kind) := by
  induction h with
  | done => exact lexes_nil
  | more spaces word others ih =>
    have hword := word.lexes_text.append others.separated ih
    exact (hword.spaces spaces).blank rfl

theorem exists_behind (words : List Word) : ∃ text, Behind words text := by
  induction words with
  | nil => exact ⟨[], .done⟩
  | cons word words ih =>
    obtain ⟨text, htext⟩ := ih
    exact ⟨_, .more 0 word htext⟩

/-! ## Words by themselves -/

/-- Words with one or more spaces between each two of them. -/
def Spaced (words : List Word) (text : String) : Prop :=
  ∃ first others behind, words = first :: others ∧ text.toList = first.text.toList ++ behind ∧
    Behind others behind

/-- What the tokens of a text say, for the whole text. -/
theorem exists_tokens_of_lexes {text : String} {kinds : List Kind} (h : Lexes text.toList kinds) :
    ∃ tokens, tokenize text = .ok tokens ∧ tokens.map Token.kind = kinds := h

theorem Spaced.exists_tokens {words : List Word} {text : String} (h : Spaced words text) :
    ∃ tokens, tokenize text = .ok tokens ∧ tokens.map Token.kind = words.map Word.kind := by
  obtain ⟨first, others, behind, rfl, htext, hbehind⟩ := h
  refine exists_tokens_of_lexes ?_
  rw [htext]
  exact first.lexes_text.append hbehind.separated hbehind.lexes

theorem exists_spaced {words : List Word} (h : words ≠ []) : ∃ text, Spaced words text := by
  obtain ⟨first, others, rfl⟩ := List.exists_cons_of_ne_nil h
  obtain ⟨behind, hbehind⟩ := exists_behind others
  exact ⟨String.ofList (first.text.toList ++ behind), first, others, behind, rfl,
    String.toList_ofList, hbehind⟩

end Formula.Token
