import Formula.Proofs.Steps

set_option autoImplicit false

/-! # Parsers go forward

What a parser leaves is the end of the tokens that it was given, so the position of every error is
that of one of them or of the end of the text. -/

namespace Formula

/-! ## Conversions -/

theorem dropQuestion_suffix (tokens : List Token) : dropQuestion tokens <:+ tokens := by
  unfold dropQuestion
  split
  · exact List.suffix_cons _ _
  · exact List.suffix_rfl

theorem dropBrackets_suffix (tokens : List Token) : dropBrackets tokens <:+ tokens := by
  fun_induction dropBrackets tokens with
  | case1 opened closed rest ih =>
    exact (ih.trans (List.suffix_cons _ _)).trans (List.suffix_cons _ _)
  | case2 tokens hother => exact List.suffix_rfl

theorem conversionAt?_suffix {tokens operand : List Token}
    (h : conversionAt? tokens = some operand) : operand <:+ tokens := by
  unfold conversionAt? conversionOperand? at h
  split at h
  · split at h
    · next name _ rest =>
      dsimp only at h
      split at h
      · next behind hclose =>
        split at h
        · obtain rfl := Option.some.inj h
          have hbrackets := dropBrackets_suffix
            (dropQuestion (rest.drop (2 * (memberNames rest).length)))
          rw [hclose] at hbrackets
          have hrest := (hbrackets.trans (dropQuestion_suffix _)).trans (List.drop_suffix _ rest)
          have hoperand := (List.suffix_cons _ _).trans hrest
          exact (hoperand.trans (List.suffix_cons _ _)).trans (List.suffix_cons _ _)
        · cases h
      · cases h
    · cases h
  · cases h

namespace Parser

/-- What the parser leaves is the end of what it was given. -/
def Advances {α : Type} (p : Parser α) : Prop :=
  ∀ ⦃setting : Setting⦄ ⦃tokens rest : List Token⦄ ⦃folds : List Fold⦄ ⦃a : α⦄,
    p.Reads setting tokens folds a rest → rest <:+ tokens

/-! ## Combinators -/

variable {α β : Type}

theorem advances_bind {p : Parser α} {f : α → Parser β} (hp : Advances p)
    (hf : ∀ a, Advances (f a)) : Advances (p >>= f) := by
  intro setting tokens rest folds b h
  obtain ⟨_, a, middle, _, hread, hthen, -⟩ := reads_bind.1 h
  exact (hf a hthen).trans (hp hread)

theorem advances_pure (a : α) : Advances (pure a : Parser α) := by
  intro setting tokens rest folds b h
  cases h
  exact List.suffix_rfl

theorem advances_next? : Advances next? := by
  intro setting tokens rest folds b h
  cases h
  exact List.suffix_rfl

theorem advances_tokens : Advances tokens := by
  intro setting tokens rest folds b h
  cases h
  exact List.suffix_rfl

theorem advances_position : Advances position := by
  intro setting tokens rest folds b h
  cases h
  exact List.suffix_rfl

theorem advances_fold (construct : Construct) (start : Nat) : Advances (fold construct start) := by
  intro setting tokens rest folds b h
  cases h
  exact List.suffix_rfl

theorem advances_skip (n : Nat) : Advances (skip n) := by
  intro setting tokens rest folds b h
  cases h
  exact List.drop_suffix n tokens

theorem advances_fail (cause : ParseError.Cause) : Advances (fail cause : Parser α) :=
  fun _ _ _ _ _ h => absurd h not_reads_fail

theorem advances_accept (symbol : Symbol) : Advances (accept symbol) := by
  unfold accept
  refine advances_bind advances_next? fun next => ?_
  split
  · exact advances_bind (advances_skip 1) fun _ => advances_pure true
  · exact advances_pure false

theorem advances_expect (symbol : Symbol) : Advances (expect symbol) := by
  unfold expect
  refine advances_bind (advances_accept symbol) fun found => ?_
  split
  · exact advances_pure ()
  · exact advances_bind advances_next? fun next => advances_fail _

/-! ## Inside one level of nesting -/

section Item

variable {item : Parser Expr} (hitem : Advances item)
include hitem

theorem advances_argumentsFrom (close : Symbol) (commas : Nat) :
    Advances (argumentsFrom item close commas) := by
  induction commas with
  | zero =>
    rw [argumentsFrom.eq_def]
    refine advances_bind hitem fun first => advances_bind (advances_accept close) fun closed => ?_
    split
    · exact advances_pure _
    · exact advances_bind advances_next? fun next => advances_fail _
  | succ commas ih =>
    rw [argumentsFrom.eq_def]
    refine advances_bind hitem fun first => advances_bind (advances_accept close) fun closed => ?_
    split
    · exact advances_pure _
    · refine advances_bind (advances_accept .comma) fun separated => ?_
      split
      · exact advances_bind ih fun others => advances_pure _
      · exact advances_bind advances_next? fun next => advances_fail _

theorem advances_arguments (close : Symbol) : Advances (arguments item close) := by
  unfold arguments
  refine advances_bind (advances_accept close) fun closed => ?_
  split
  · exact advances_pure _
  · exact advances_bind advances_tokens fun tokens => advances_argumentsFrom hitem close _

theorem advances_named (start : Nat) (name : String) : Advances (named item start name) := by
  unfold named
  split
  · exact advances_pure _
  · exact advances_pure _
  · exact advances_fold _ _
  · refine advances_bind advances_tokens fun tokens => advances_bind (advances_skip _) fun _ =>
      advances_bind (advances_accept .openParen) fun called => ?_
    split
    · exact advances_bind (advances_arguments hitem .closeParen) fun es => advances_pure _
    · split
      · exact advances_pure _
      · exact advances_fold _ _

theorem advances_primary : Advances (primary item) := by
  unfold primary
  refine advances_bind advances_position fun start => advances_bind advances_next? fun next => ?_
  split
  · exact advances_bind (advances_skip 1) fun _ => advances_pure _
  · exact advances_bind (advances_skip 1) fun _ => advances_pure _
  · exact advances_bind (advances_skip 1) fun _ => advances_fold _ _
  · exact advances_bind (advances_skip 1) fun _ => advances_named hitem start _
  · exact advances_bind (advances_skip 1) fun _ => advances_bind hitem fun inner =>
      advances_bind (advances_expect .closeParen) fun _ => advances_pure inner
  · exact advances_fail _
  · exact advances_fail _

theorem advances_suffixes (count : Nat) (operand : Expr) :
    Advances (suffixes item count operand) := by
  induction count generalizing operand with
  | zero => exact advances_pure operand
  | succ count ih =>
    rw [suffixes.eq_def]
    refine advances_bind advances_position fun start => advances_bind advances_next? fun next => ?_
    split
    · exact advances_bind (advances_skip 1) fun _ =>
        advances_bind (advances_arguments hitem .closeParen) fun _ =>
          advances_bind (advances_fold _ _) ih
    · exact advances_bind (advances_skip 1) fun _ =>
        advances_bind (advances_arguments hitem .closeBracket) fun _ =>
          advances_bind (advances_fold _ _) ih
    · refine advances_bind (advances_skip 1) fun _ => advances_bind advances_next? fun member => ?_
      split
      · exact advances_bind (advances_skip 1) fun _ => advances_bind (advances_fold _ _) ih
      · exact advances_fail _
    · exact advances_pure _

end Item

/-! ## The levels of the grammar -/

theorem advances_chain {level budget : Nat}
    (hright : ∀ lower, budget = lower + 1 → Advances (binary (level + 1) lower))
    (hothers : ∀ lower, budget = lower + 1 → ∀ left, Advances (chain level lower left))
    (left : Expr) : Advances (chain level budget left) := by
  rw [chain]
  refine advances_bind advances_next? fun next => ?_
  split
  · exact advances_pure left
  · refine advances_bind (advances_skip 1) fun _ => ?_
    cases budget with
    | zero => exact fun _ _ _ _ _ h => absurd h not_reads_tooDeep
    | succ lower => exact advances_bind (hright lower rfl) fun right => hothers lower rfl _

theorem advances_unary {budget : Nat}
    (hlower : ∀ lower, budget = lower + 1 → Advances (unary lower))
    (hitem : Advances (expression budget)) : Advances (unary budget) := by
  intro setting tokens rest folds e h
  match tokens with
  | [] => exact absurd h not_reads_unary_nil
  | ⟨kind, start⟩ :: tail =>
    rw [reads_unary_cons] at h
    split at h
    · obtain ⟨lower, rfl, operand, hoperand, -⟩ := h
      exact (hlower lower rfl hoperand).trans (List.suffix_cons _ _)
    · split at h
      · next operand hconversion =>
        obtain ⟨lower, rfl, before, dropped, hdropped, -⟩ := h
        exact (hlower lower rfl hdropped).trans (conversionAt?_suffix hconversion)
      · obtain ⟨before, base, middle, after, hprimary, hsuffixes, -⟩ := h
        exact (advances_suffixes hitem _ _ hsuffixes).trans (advances_primary hitem hprimary)

theorem advances_binary_last {budget : Nat} (hunary : Advances (unary budget)) :
    Advances (binary levelCount budget) := by
  rw [binary, if_neg (Nat.lt_irrefl _)]
  exact hunary

theorem advances_binary {level budget : Nat} (hlevel : level < levelCount)
    (hfirst : Advances (binary (level + 1) budget))
    (hchain : ∀ left, Advances (chain level budget left)) : Advances (binary level budget) := by
  rw [binary, if_pos hlevel]
  exact advances_bind hfirst hchain

theorem advances_expression_succ {budget : Nat} (hcondition : Advances (binary 0 budget))
    (hbranch : Advances (expression budget)) : Advances (expression (budget + 1)) := by
  rw [expression]
  refine advances_bind hcondition fun condition => advances_bind (advances_accept .question)
    fun found => ?_
  split
  · exact advances_bind hbranch fun ifTrue => advances_bind (advances_expect .colon) fun _ =>
      advances_bind hbranch fun ifFalse => advances_pure _
  · exact advances_pure condition

theorem advances (budget : Nat) :
    Advances (expression budget) ∧ Advances (unary budget) ∧
      (∀ level, level < levelCount → ∀ left, Advances (chain level budget left)) ∧
      ∀ level, level ≤ levelCount → Advances (binary level budget) :=
  levels_induction (C := fun level budget => ∀ left, Advances (chain level budget left))
    (B := fun level budget => Advances (binary level budget))
    (fun _ _ _ _ _ h => absurd h not_reads_expression_zero)
    (fun _ => advances_unary) (fun _ _ _ => advances_chain) (fun _ => advances_binary_last)
    (fun _ _ => advances_binary) (fun _ => advances_expression_succ) budget

theorem advances_level (budget level : Nat) (hlevel : level ≤ levelCount) :
    Advances (binary level budget) :=
  (advances budget).2.2.2 level hlevel

end Parser

end Formula
