import Formula.Proofs.Steps

set_option autoImplicit false

/-! # Failed runs of a parser

`Parser.Fails` says that a parser ends with an error. As for the runs that succeed, every combinator
and every parser of the grammar has one lemma here that says where its error comes from: from one of
its parts, behind what the parts before have read, or from the parser itself, and then it is
reported at the next token. -/

namespace Formula

/-- An error at the first one of these tokens, or at the end of the text. -/
def Setting.errorAt (setting : Setting) (tokens : List Token)
    (cause : ParseError.Cause) : ParseError :=
  ⟨(tokens.head?.map Token.position).getD setting.stop, cause⟩

namespace Parser

variable {α β : Type} {setting : Setting} {tokens : List Token} {error : ParseError}

/-- On `tokens` the parser ends with `error`. -/
def Fails (p : Parser α) (setting : Setting) (tokens : List Token) (error : ParseError) : Prop :=
  (p setting tokens).result = .error error

/-! ## Combinators -/

@[simp]
theorem not_fails_pure {a : α} : ¬ (pure a : Parser α).Fails setting tokens error := by
  intro h
  cases h

theorem fails_bind {p : Parser α} {f : α → Parser β} :
    (p >>= f).Fails setting tokens error ↔
      p.Fails setting tokens error ∨ ∃ before a middle, p.Reads setting tokens before a middle ∧
        (f a).Fails setting middle error := by
  show (Parser.bind p f setting tokens).result = _ ↔ _
  unfold Fails Reads Parser.bind
  rcases p setting tokens with ⟨before, e | ⟨a, middle⟩⟩
  · simp
  · constructor
    · intro h
      exact .inr ⟨before, a, middle, rfl, h⟩
    · rintro (h | ⟨_, _, _, hp, hf⟩)
      · cases h
      · cases hp
        exact hf

theorem fails_bind_pure {p : Parser α} {f : α → β} :
    (p >>= fun a => pure (f a)).Fails setting tokens error ↔ p.Fails setting tokens error := by
  rw [fails_bind]
  simp

@[simp]
theorem fails_next?_bind {f : Option Token.Kind → Parser β} :
    (next? >>= f).Fails setting tokens error ↔
      (f (tokens.head?.map Token.kind)).Fails setting tokens error :=
  Iff.rfl

@[simp]
theorem fails_tokens_bind {f : List Token → Parser β} :
    (Parser.tokens >>= f).Fails setting tokens error ↔ (f tokens).Fails setting tokens error :=
  Iff.rfl

@[simp]
theorem fails_position_bind {f : Nat → Parser β} :
    (position >>= f).Fails setting tokens error ↔
      (f ((tokens.head?.map Token.position).getD setting.stop)).Fails setting tokens error :=
  Iff.rfl

@[simp]
theorem fails_skip_bind {n : Nat} {f : Unit → Parser β} :
    (skip n >>= f).Fails setting tokens error ↔ (f ()).Fails setting (tokens.drop n) error :=
  Iff.rfl

@[simp]
theorem fails_resume_bind {next : List Token} {f : Unit → Parser β} :
    (resume next >>= f).Fails setting tokens error ↔ (f ()).Fails setting next error :=
  Iff.rfl

@[simp]
theorem not_fails_fold {construct : Construct} {start : Nat} :
    ¬ (fold construct start).Fails setting tokens error := by
  intro h
  cases h

@[simp]
theorem fails_fail {cause : ParseError.Cause} :
    (fail cause : Parser α).Fails setting tokens error ↔ error = setting.errorAt tokens cause := by
  show Except.error (setting.errorAt tokens cause) =
    (.error error : Except ParseError (α × List Token)) ↔ _
  rw [Except.error.injEq]
  exact eq_comm

@[simp]
theorem fails_tooDeep :
    (tooDeep : Parser α).Fails setting tokens error ↔
      error = setting.errorAt tokens (.tooDeep setting.maxDepth) :=
  fails_fail (α := α)

@[simp]
theorem fails_accept_bind {symbol : Symbol} {f : Bool → Parser β} :
    (accept symbol >>= f).Fails setting tokens error ↔
      if tokens.head?.map Token.kind = some (.symbol symbol) then
        (f true).Fails setting (tokens.drop 1) error
      else (f false).Fails setting tokens error := by
  show (Parser.bind (fun setting tokens => (if tokens.head?.map Token.kind = some (.symbol symbol)
    then _ else _ : Parser Bool) setting tokens) f setting tokens).result = _ ↔ _
  unfold Parser.bind
  by_cases h : tokens.head?.map Token.kind = some (.symbol symbol)
  · simp only [h, if_true]
    exact Iff.rfl
  · simp only [h, if_false]
    exact Iff.rfl

@[simp]
theorem fails_expect_bind {symbol : Symbol} {f : Unit → Parser β} :
    (expect symbol >>= f).Fails setting tokens error ↔
      if tokens.head?.map Token.kind = some (.symbol symbol) then
        (f ()).Fails setting (tokens.drop 1) error
      else error = setting.errorAt tokens (.expected symbol (tokens.head?.map Token.kind)) := by
  rw [fails_bind]
  unfold expect
  by_cases h : tokens.head?.map Token.kind = some (.symbol symbol)
  · simp only [reads_accept_bind, fails_accept_bind, if_pos h, if_true, reads_pure, not_fails_pure,
      false_or]
    constructor
    · rintro ⟨_, _, _, ⟨rfl, -, rfl⟩, hf⟩
      exact hf
    · intro hf
      exact ⟨[], (), _, ⟨rfl, trivial, rfl⟩, hf⟩
  · simp [h]

/-! ## Arguments and primary expressions -/

section Item

variable {item : Parser Expr} {close : Symbol}

theorem fails_argumentsFrom {commas : Nat}
    (h : (argumentsFrom item close commas).Fails setting tokens error) :
    item.Fails setting tokens error ∨ ∃ before first middle,
      item.Reads setting tokens before first middle ∧
      middle.head?.map Token.kind ≠ some (.symbol close) ∧
      (error = setting.errorAt middle (.expectedCommaOr close (middle.head?.map Token.kind)) ∨
        ∃ fewer, commas = fewer + 1 ∧ middle.head?.map Token.kind = some (.symbol .comma) ∧
          (argumentsFrom item close fewer).Fails setting (middle.drop 1) error) := by
  rw [argumentsFrom.eq_def, fails_bind] at h
  rcases h with h | ⟨before, first, middle, hfirst, h⟩
  · exact .inl h
  refine .inr ⟨before, first, middle, hfirst, ?_⟩
  rw [fails_accept_bind] at h
  split at h
  · simp at h
  next hclose =>
  refine ⟨hclose, ?_⟩
  cases commas with
  | zero => exact .inl (by simpa using h)
  | succ fewer =>
    simp only [Bool.false_eq_true, if_false, fails_accept_bind] at h
    split at h
    · next hcomma =>
      rw [if_true, fails_bind_pure] at h
      exact .inr ⟨fewer, rfl, hcomma, h⟩
    · exact .inl (by simpa using h)

theorem fails_arguments (h : (arguments item close).Fails setting tokens error) :
    (argumentsFrom item close tokens.length).Fails setting tokens error := by
  unfold arguments at h
  rw [fails_accept_bind] at h
  split at h
  · simp at h
  · simpa using h

theorem fails_named {start : Nat} {name : String}
    (h : (named item start name).Fails setting tokens error) :
    isKeyword name = false ∧
      let behind := tokens.drop (2 * (memberNames tokens).length)
      behind.head?.map Token.kind = some (.symbol .openParen) ∧
        (arguments item .closeParen).Fails setting (behind.drop 1) error := by
  unfold named at h
  split at h
  · simp at h
  · simp at h
  · simp at h
  next htrue hfalse hnull =>
  have hword : isKeyword name = false := by
    simp only [isKeyword, Bool.or_eq_false_iff, beq_eq_false_iff_ne]
    exact ⟨⟨htrue, hfalse⟩, hnull⟩
  refine ⟨hword, ?_⟩
  rw [fails_tokens_bind, fails_skip_bind, fails_accept_bind] at h
  split at h
  · next hcall =>
    rw [if_pos rfl, fails_bind_pure] at h
    exact ⟨hcall, h⟩
  · rw [if_neg (by simp)] at h
    split at h <;> simp at h

theorem fails_primary_nil (h : (primary item).Fails setting [] error) :
    error = setting.errorAt [] .unexpectedEnd := by
  simpa [primary] using h

theorem fails_primary_cons {kind : Token.Kind} {start : Nat} {tail : List Token}
    (h : (primary item).Fails setting (⟨kind, start⟩ :: tail) error) :
    (∃ name, kind = .name name ∧ (named item start name).Fails setting tail error) ∨
      (kind = .symbol .openParen ∧ (item.Fails setting tail error ∨
        ∃ before inner middle, item.Reads setting tail before inner middle ∧
          error = setting.errorAt middle (.expected .closeParen (middle.head?.map Token.kind)))) ∨
      (∃ symbol, kind = .symbol symbol ∧ symbol ≠ .openParen ∧
        error = setting.errorAt (⟨kind, start⟩ :: tail) (.expectedExpression kind)) := by
  unfold primary at h
  rw [fails_position_bind, fails_next?_bind] at h
  simp only [List.head?_cons, Option.map_some] at h
  cases kind with
  | number value => simp at h
  | string value => simp at h
  | character => simp at h
  | name name => exact .inl ⟨name, rfl, by simpa using h⟩
  | symbol symbol =>
    by_cases hopen : symbol = .openParen
    · subst hopen
      dsimp only at h
      rw [fails_skip_bind, fails_bind] at h
      rcases h with h | ⟨before, inner, middle, hinner, h⟩
      · exact .inr (.inl ⟨rfl, .inl h⟩)
      · rw [fails_expect_bind] at h
        split at h
        · simp at h
        · exact .inr (.inl ⟨rfl, .inr ⟨before, inner, middle, hinner, h⟩⟩)
    · exact .inr (.inr ⟨symbol, rfl, hopen, by simpa [hopen] using h⟩)

theorem not_fails_suffixes_zero {operand : Expr} :
    ¬ (suffixes item 0 operand).Fails setting tokens error := by
  simp [suffixes]

theorem not_fails_suffixes_nil {count : Nat} {operand : Expr} :
    ¬ (suffixes item count operand).Fails setting [] error := by
  cases count <;> simp [suffixes]

theorem fails_suffixes_cons {count : Nat} {operand : Expr} {kind : Token.Kind} {start : Nat}
    {tail : List Token}
    (h : (suffixes item (count + 1) operand).Fails setting (⟨kind, start⟩ :: tail) error) :
    (kind = .symbol .openParen ∧ ((arguments item .closeParen).Fails setting tail error ∨
      ∃ before es middle, (arguments item .closeParen).Reads setting tail before es middle ∧
        (suffixes item count (.unsupported Construct.computedInvocation.explanation)).Fails setting
          middle error)) ∨
    (kind = .symbol .openBracket ∧ ((arguments item .closeBracket).Fails setting tail error ∨
      ∃ before es middle, (arguments item .closeBracket).Reads setting tail before es middle ∧
        (suffixes item count (.unsupported Construct.elementAccess.explanation)).Fails setting
          middle error)) ∨
    (kind = .symbol .dot ∧
      ((∀ name, tail.head?.map Token.kind ≠ some (.name name)) ∧
          error = setting.errorAt tail (.expectedMember (tail.head?.map Token.kind)) ∨
        ∃ name, tail.head?.map Token.kind = some (.name name) ∧
          (suffixes item count (.unsupported Construct.memberAccess.explanation)).Fails setting
            (tail.drop 1) error)) := by
  rw [suffixes.eq_def] at h
  dsimp only at h
  rw [fails_position_bind, fails_next?_bind] at h
  simp only [List.head?_cons, Option.map_some] at h
  cases kind with
  | symbol symbol =>
    cases symbol with
    | openParen =>
      dsimp only at h
      rw [fails_skip_bind, fails_bind] at h
      exact .inl ⟨rfl, h⟩
    | openBracket =>
      dsimp only at h
      rw [fails_skip_bind, fails_bind] at h
      exact .inr (.inl ⟨rfl, h⟩)
    | dot =>
      refine .inr (.inr ⟨rfl, ?_⟩)
      dsimp only at h
      rw [fails_skip_bind, fails_next?_bind] at h
      simp only [List.drop_succ_cons, List.drop_zero] at h
      split at h
      · next name hname => exact .inr ⟨name, hname, h⟩
      · next hother => exact .inl ⟨hother, by simpa using h⟩
    | _ => simp at h
  | _ => simp at h

end Item

/-! ## Chains -/

theorem not_fails_chain_nil {level budget : Nat} {left : Expr} :
    ¬ (chain level budget left).Fails setting [] error := by
  rw [chain]
  simp

theorem fails_chain_cons {level budget : Nat} {left : Expr} {kind : Token.Kind} {start : Nat}
    {tail : List Token}
    (h : (chain level budget left).Fails setting (⟨kind, start⟩ :: tail) error) :
    ∃ operator, kind.operatorAt? level = some operator ∧
      (budget = 0 ∧ error = setting.errorAt tail (.tooDeep setting.maxDepth) ∨
        ∃ lower, budget = lower + 1 ∧ ((binary (level + 1) lower).Fails setting tail error ∨
          ∃ before right middle, (binary (level + 1) lower).Reads setting tail before right middle ∧
            (chain level lower (.binary operator.text left right)).Fails setting
              middle error)) := by
  rw [chain, fails_next?_bind] at h
  simp only [List.head?_cons, Option.map_some, Option.bind_some] at h
  cases hoperator : kind.operatorAt? level with
  | none => simp [hoperator] at h
  | some operator =>
    simp only [hoperator] at h
    rw [fails_skip_bind] at h
    refine ⟨operator, rfl, ?_⟩
    cases budget with
    | zero => exact .inl ⟨rfl, by simpa using h⟩
    | succ lower =>
      dsimp only at h
      rw [fails_bind] at h
      exact .inr ⟨lower, rfl, h⟩

theorem fails_binary {level budget : Nat} (inner : level < levelCount)
    (h : (binary level budget).Fails setting tokens error) :
    (binary (level + 1) budget).Fails setting tokens error ∨ ∃ before left middle,
      (binary (level + 1) budget).Reads setting tokens before left middle ∧
        (chain level budget left).Fails setting middle error := by
  rw [binary, if_pos inner] at h
  exact fails_bind.1 h

theorem fails_binary_last {budget : Nat}
    (h : (binary levelCount budget).Fails setting tokens error) :
    (unary budget).Fails setting tokens error := by
  rwa [binary, if_neg (Nat.lt_irrefl _)] at h

/-! ## Unary operators and conversions -/

theorem fails_conversion?_bind {f : Option (List Token) → Parser β} :
    (conversion? >>= f).Fails setting tokens error ↔
      (f (conversionAt? tokens)).Fails setting tokens error := by
  show (Parser.bind conversion? f setting tokens).result = _ ↔ _
  unfold Parser.bind
  rw [show conversion? setting tokens = _ from reads_conversion? setting tokens]
  exact Iff.rfl

theorem fails_unary_nil {budget : Nat} (h : (unary budget).Fails setting [] error) :
    error = setting.errorAt [] .unexpectedEnd := by
  rw [unary, fails_next?_bind] at h
  simp only [List.head?_nil, Option.map_none, Option.bind_none] at h
  rw [fails_position_bind, fails_conversion?_bind] at h
  dsimp only [conversionAt?] at h
  rw [fails_bind] at h
  rcases h with h | ⟨before, base, middle, hprimary, -⟩
  · exact fails_primary_nil h
  · exact absurd hprimary not_reads_primary_nil

theorem fails_unary_cons {budget : Nat} {kind : Token.Kind} {start : Nat} {tail : List Token}
    (h : (unary budget).Fails setting (⟨kind, start⟩ :: tail) error) :
    match kind.unaryOperator? with
    | some _ => budget = 0 ∧ error = setting.errorAt tail (.tooDeep setting.maxDepth) ∨
        ∃ lower, budget = lower + 1 ∧ (unary lower).Fails setting tail error
    | none =>
      match conversionAt? (⟨kind, start⟩ :: tail) with
      | some operand => budget = 0 ∧ error = setting.errorAt operand (.tooDeep setting.maxDepth) ∨
          ∃ lower, budget = lower + 1 ∧ (unary lower).Fails setting operand error
      | none => (primary (expression budget)).Fails setting (⟨kind, start⟩ :: tail) error ∨
          ∃ before base middle,
            (primary (expression budget)).Reads setting (⟨kind, start⟩ :: tail) before base middle ∧
              (suffixes (expression budget) middle.length base).Fails setting middle error := by
  rw [unary, fails_next?_bind] at h
  simp only [List.head?_cons, Option.map_some, Option.bind_some] at h
  cases hoperator : kind.unaryOperator? with
  | some operator =>
    simp only [hoperator] at h
    rw [fails_skip_bind] at h
    cases budget with
    | zero => exact .inl ⟨rfl, by simpa using h⟩
    | succ lower =>
      dsimp only at h
      rw [fails_bind_pure] at h
      exact .inr ⟨lower, rfl, h⟩
  | none =>
    simp only [hoperator] at h
    rw [fails_position_bind, fails_conversion?_bind] at h
    cases hconversion : conversionAt? (⟨kind, start⟩ :: tail) with
    | some operand =>
      simp only [hconversion] at h
      rw [fails_resume_bind] at h
      cases budget with
      | zero => exact .inl ⟨rfl, by simpa using h⟩
      | succ lower =>
        simp only [fails_bind, not_fails_fold, and_false, exists_false, or_false] at h
        exact .inr ⟨lower, rfl, h⟩
    | none =>
      simp only [hconversion] at h
      exact fails_bind.1 h

/-! ## Expressions -/

theorem fails_expression_zero (h : (expression 0).Fails setting tokens error) :
    error = setting.errorAt tokens (.tooDeep setting.maxDepth) := by
  rw [expression] at h
  exact fails_tooDeep.1 h

theorem fails_expression_succ {budget : Nat}
    (h : (expression (budget + 1)).Fails setting tokens error) :
    (binary 0 budget).Fails setting tokens error ∨ ∃ before condition middle,
      (binary 0 budget).Reads setting tokens before condition middle ∧
      middle.head?.map Token.kind = some (.symbol .question) ∧
      ((expression budget).Fails setting (middle.drop 1) error ∨ ∃ first ifTrue between,
        (expression budget).Reads setting (middle.drop 1) first ifTrue between ∧
        (error = setting.errorAt between (.expected .colon (between.head?.map Token.kind)) ∨
          between.head?.map Token.kind = some (.symbol .colon) ∧
            (expression budget).Fails setting (between.drop 1) error)) := by
  rw [expression, fails_bind] at h
  rcases h with h | ⟨before, condition, middle, hcondition, h⟩
  · exact .inl h
  rw [fails_accept_bind] at h
  split at h
  · next hmark =>
    refine .inr ⟨before, condition, middle, hcondition, hmark, ?_⟩
    rw [if_pos rfl, fails_bind] at h
    rcases h with h | ⟨first, ifTrue, between, htrue, h⟩
    · exact .inl h
    refine .inr ⟨first, ifTrue, between, htrue, ?_⟩
    rw [fails_expect_bind] at h
    split at h
    · next hcolon =>
      rw [fails_bind_pure] at h
      exact .inr ⟨hcolon, h⟩
    · exact .inl h
  · simp at h

end Parser

end Formula
