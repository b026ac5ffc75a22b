import Formula.Parse
import Formula.Proofs.Completeness
import Formula.Proofs.Soundness
import Mathlib.Data.List.Basic

set_option autoImplicit false

/-! # The parser accepts the grammar

A text is parsed under a limit exactly if its tokens have a derivation whose nesting the
limit covers. No derivation nests deeper than it has tokens, so under any limit that is at
least their number the parser accepts the texts of the grammar, each with the tree that the
grammar gives it, and no others. -/

namespace Formula

open Grammar

/-! ## Whole texts -/

theorem Parser.reads_formula {setting : Setting} {tokens rest : List Token} {folds : List Fold}
    {e : Expr} {budget : Nat} :
    (formula budget).Reads setting tokens folds e rest ↔
      (expression budget).Reads setting tokens folds e [] ∧ rest = [] := by
  unfold formula
  rw [reads_bind]
  constructor
  · rintro ⟨before, found, middle, after, hread, hend, rfl⟩
    rw [reads_next?_bind] at hend
    match middle with
    | [] =>
      simp only [List.head?_nil, Option.map_none, reads_pure] at hend
      obtain ⟨rfl, rfl, rfl⟩ := hend
      exact ⟨by simpa using hread, rfl⟩
    | ⟨kind, start⟩ :: tail =>
      simp only [List.head?_cons, Option.map_some] at hend
      split at hend
      · next hnone => cases hnone
      all_goals exact absurd hend not_reads_fail
  · rintro ⟨hread, rfl⟩
    refine ⟨folds, e, [], [], hread, ?_, by simp⟩
    rw [reads_next?_bind]
    simp

/-- A run over a whole text. -/
theorem parseRecording_eq_ok_iff {text : String} {tokens : List Token}
    {folds : List Fold} {e : Expr} {limit : Nat} (htokens : Token.tokenize text = .ok tokens) :
    parseRecording ⟨limit⟩ text = (.ok e, folds) ↔
      (Parser.expression limit).Reads ⟨text.utf8ByteSize, limit⟩ tokens folds e [] := by
  have hformula : (Parser.formula limit).Reads ⟨text.utf8ByteSize, limit⟩ tokens folds e [] ↔
      (Parser.expression limit).Reads ⟨text.utf8ByteSize, limit⟩ tokens folds e [] := by
    rw [Parser.reads_formula, and_iff_left rfl]
  rw [← hformula]
  simp only [parseRecording, htokens, Parser.Reads]
  rcases hreply : Parser.formula limit ⟨text.utf8ByteSize, limit⟩ tokens with
    ⟨found, error | ⟨a, rest⟩⟩
  · simp [Except.map]
  · have hrest : rest = [] := (Parser.reads_formula.1 hreply).2
    subst hrest
    simp only [Except.map, Prod.mk.injEq, Except.ok.injEq, Reply.mk.injEq]
    grind

/-! ## The grammar of a text -/

/-- The limit on nesting is a limit on the nesting of the derivation, and on nothing else. -/
theorem parseWith_eq_ok_iff_nesting {text : String} {tokens : List Token}
    (htokens : Token.tokenize text = .ok tokens) (limit : Nat) (e : Expr) :
    parseWith ⟨limit⟩ text = .ok e ↔
      ∃ d : Derivation (.expression e) (tokens.map Token.kind) [], d.nesting ≤ limit := by
  have hfolds : parseWith ⟨limit⟩ text = .ok e ↔
      ∃ folds, parseRecording ⟨limit⟩ text = (.ok e, folds) := by
    unfold parseWith
    rcases parseRecording ⟨limit⟩ text with ⟨result, folds⟩
    simp
  rw [hfolds]
  constructor
  · rintro ⟨folds, h⟩
    obtain ⟨d, hd, -⟩ := (Parser.sound limit).1 ((parseRecording_eq_ok_iff htokens).1 h)
    exact ⟨d, hd⟩
  · rintro ⟨d, hd⟩
    obtain ⟨folds, left, hread, hleft, -⟩ :=
      Parser.accepted_of_derivation d ⟨stops_nil _, by simp⟩ hd ⟨text.utf8ByteSize, limit⟩ rfl
    -- the derivation leaves no kinds, so the parser leaves no tokens
    obtain rfl : left = [] := by simpa using hleft
    exact ⟨folds, (parseRecording_eq_ok_iff htokens).2 hread⟩

/-- A text that is parsed has tokens. -/
theorem exists_tokens_of_parseWith {text : String} {limit : Nat} {e : Expr}
    (h : parseWith ⟨limit⟩ text = .ok e) : ∃ tokens, Token.tokenize text = .ok tokens := by
  unfold parseWith parseRecording at h
  cases htokens : Token.tokenize text with
  | error e =>
    rw [htokens] at h
    cases h
  | ok tokens => exact ⟨tokens, rfl⟩

/-- What the grammar derives is parsed under any limit that is at least the number of tokens. -/
theorem parseWith_of_derivation {text : String} {tokens : List Token} {limit : Nat} {e : Expr}
    (htokens : Token.tokenize text = .ok tokens) (hlimit : tokens.length ≤ limit)
    (d : Derivation (.expression e) (tokens.map Token.kind) []) :
    parseWith ⟨limit⟩ text = .ok e := by
  refine (parseWith_eq_ok_iff_nesting htokens limit e).2 ⟨d, ?_⟩
  have hlength := d.nesting_add_length_le
  rw [List.length_map] at hlength
  omega

/-- A text of one token that is a primary expression by itself is parsed to it. -/
theorem parse_of_primary {text : String} {token : Token} {e : Expr}
    (htokens : Token.tokenize text = .ok [token]) (hkind : token.kind ≠ .symbol .openParen)
    (d : Derivation (.primary e) [token.kind] []) : parse text = .ok e := by
  have hunconverted : ∀ operand, ¬ Conversion [token.kind] operand :=
    fun operand h => hkind (Option.some.inj h.head?_eq)
  have unary : Derivation (.unary e) [token.kind] [] := .value hunconverted d (.bare e [])
  obtain ⟨d'⟩ := unary.nonempty_expression
  exact parseWith_of_derivation htokens (Nat.le_add_left 1 255) d'

/-- Under a limit of at least the number of its tokens, a text is parsed to a tree exactly if the
    grammar derives the tree from its tokens. -/
theorem parseWith_eq_ok_iff_derivation {text : String} {tokens : List Token}
    (htokens : Token.tokenize text = .ok tokens) {limit : Nat} (hlimit : tokens.length ≤ limit)
    (e : Expr) :
    parseWith ⟨limit⟩ text = .ok e ↔
      Nonempty (Derivation (.expression e) (tokens.map Token.kind) []) := by
  constructor
  · intro h
    obtain ⟨d, -⟩ := (parseWith_eq_ok_iff_nesting htokens limit e).1 h
    exact ⟨d⟩
  · rintro ⟨d⟩
    exact parseWith_of_derivation htokens hlimit d

/-- Behind a predefined type a sign starts the operand of a conversion. -/
theorem parseWith_conversion_of_difference :
    parseWith ⟨5⟩ "(int)-x" = .ok (.unsupported Construct.typeConversion.explanation) := by
  have htokens : Token.tokenize "(int)-x" = .ok [⟨.symbol .openParen, 0⟩, ⟨.name "int", 1⟩,
      ⟨.symbol .closeParen, 4⟩, ⟨.symbol .minus, 5⟩, ⟨.name "x", 6⟩] := by
    decide +kernel
  have hconversion :
      Conversion [.symbol .openParen, .name "int", .symbol .closeParen, .symbol .minus, .name "x"]
        [.symbol .minus, .name "x"] :=
    .intro (by decide) (.done _) (.absent _) (.done _) (.inr ⟨rfl, rfl, by decide⟩)
  have negation : Derivation (.unary (.unary Symbol.minus.text (.parameter "x")))
      [.symbol .minus, .name "x"] [] :=
    .prefixed .minus (by decide)
      (.value (by rintro _ ⟨⟩) (.parameter "x" (by decide) rfl (by simp)) (.bare _ _))
  obtain ⟨d, -⟩ :=
    (Derivation.conversion hconversion negation).exists_chain (Nat.zero_le levelCount)
  exact (parseWith_eq_ok_iff_derivation htokens (Nat.le_refl 5) _).2 ⟨.plain d⟩

end Formula
