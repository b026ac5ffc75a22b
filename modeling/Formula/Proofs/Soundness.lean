import Formula.Proofs.Steps

set_option autoImplicit false

/-! # What the parser reads is derived

Every successful run of a parser is a derivation of the phrase that the parser stands for, with no
more nesting than the parser's budget and with the constructs that the run folds. The parsers inside
one level of nesting are taken one by one, for any parser of expressions that is itself sound; the
levels of the grammar follow by induction on the budget. -/

namespace Formula.Parser

open Grammar

/-- What `p` reads is derived from the same tokens, with no more nesting than `bound`. -/
def Sound {α : Type} (p : Parser α) (phrase : α → Phrase) (bound : Nat) : Prop :=
  ∀ ⦃setting : Setting⦄ ⦃tokens rest : List Token⦄ ⦃folds : List Fold⦄ ⦃a : α⦄,
    p.Reads setting tokens folds a rest →
      ∃ d : Derivation (phrase a) (tokens.map Token.kind) (rest.map Token.kind),
        d.nesting ≤ bound ∧ d.constructs = folds.map Fold.construct

/-- A token of a known kind in front. -/
theorem kinds_of_head? {tokens : List Token} {kind : Token.Kind}
    (h : tokens.head?.map Token.kind = some kind) :
    tokens.map Token.kind = kind :: (tokens.drop 1).map Token.kind := by
  match tokens, h with
  | ⟨_, _⟩ :: tail, h => simpa using h

theorem symbol_of_operatorAt? {kind : Token.Kind} {level : Nat} {operator : Symbol}
    (h : kind.operatorAt? level = some operator) :
    kind = .symbol operator ∧ operator.level? = some level := by
  cases kind with
  | symbol symbol =>
    simp only [Token.Kind.operatorAt?, Option.ite_none_right_eq_some, Option.some.injEq] at h
    obtain ⟨hlevel, rfl⟩ := h
    exact ⟨rfl, hlevel⟩
  | _ => cases h

theorem symbol_of_unaryOperator? {kind : Token.Kind} {operator : Symbol}
    (h : kind.unaryOperator? = some operator) :
    kind = .symbol operator ∧ operator ∈ [.minus, .bang, .plus, .tilde] := by
  cases kind with
  | symbol symbol => cases symbol <;> cases h <;> exact ⟨rfl, by decide⟩
  | _ => cases h

/-! ## Inside one level of nesting -/

section Item

variable {item : Parser Expr} {bound : Nat}

theorem sound_argumentsFrom (hitem : Sound item .expression bound) (close : Symbol) (commas : Nat) :
    Sound (argumentsFrom item close commas) (.items close) bound := by
  induction commas with
  | zero =>
    intro setting tokens rest folds es h
    obtain ⟨before, first, middle, after, hfirst, hafter, rfl⟩ := reads_argumentsFrom.1 h
    split at hafter
    · next hclose =>
      obtain ⟨rfl, rfl, rfl⟩ := hafter
      have hitem := hitem hfirst
      rw [kinds_of_head? hclose] at hitem
      obtain ⟨d, hd, hfolds⟩ := hitem
      exact ⟨.only d, hd, by simpa using hfolds⟩
    · obtain ⟨fewer, hfewer, -⟩ := hafter
      cases hfewer
  | succ commas ih =>
    intro setting tokens rest folds es h
    obtain ⟨before, first, middle, after, hfirst, hafter, rfl⟩ := reads_argumentsFrom.1 h
    have hitem := hitem hfirst
    split at hafter
    · next hclose =>
      obtain ⟨rfl, rfl, rfl⟩ := hafter
      rw [kinds_of_head? hclose] at hitem
      obtain ⟨d, hd, hfolds⟩ := hitem
      exact ⟨.only d, hd, by simpa using hfolds⟩
    · obtain ⟨fewer, hfewer, hcomma, others, hothers, rfl⟩ := hafter
      obtain rfl := Nat.succ.inj hfewer
      rw [kinds_of_head? hcomma] at hitem
      obtain ⟨d, hd, hfolds⟩ := hitem
      obtain ⟨ds, hds, hlater⟩ := ih hothers
      exact ⟨.comma d ds, Nat.max_le.2 ⟨hd, hds⟩, by simp [Derivation.constructs, hfolds, hlater]⟩

theorem sound_arguments (hitem : Sound item .expression bound) (close : Symbol) :
    Sound (arguments item close) (.arguments close) bound := by
  intro setting tokens rest folds es h
  rw [reads_arguments] at h
  split at h
  · next hclose =>
    obtain ⟨rfl, rfl, rfl⟩ := h
    rw [kinds_of_head? hclose]
    exact ⟨.empty close _, Nat.zero_le _, rfl⟩
  · obtain ⟨d, hd, hfolds⟩ := sound_argumentsFrom hitem close _ h
    exact ⟨.listed d, hd, hfolds⟩

/-- A name that has been taken is the front of a primary expression. -/
theorem sound_named (hitem : Sound item .expression bound) {setting : Setting}
    {tokens rest : List Token} {folds : List Fold} {start : Nat} {name : String} {e : Expr}
    (h : (named item start name).Reads setting tokens folds e rest) :
    ∃ d : Derivation (.primary e) (.name name :: tokens.map Token.kind) (rest.map Token.kind),
      d.nesting ≤ bound ∧ d.constructs = folds.map Fold.construct := by
  by_cases hword : isKeyword name = false
  · rw [reads_named hword] at h
    dsimp only at h
    have hmembers := members_memberNames tokens
    have hwhole := startsMember_memberNames tokens
    split at h
    · next hcall =>
      obtain ⟨es, hes, rfl⟩ := h
      rw [kinds_of_head? hcall] at hmembers
      obtain ⟨d, hd, hfolds⟩ := sound_arguments hitem .closeParen hes
      exact ⟨.call name hword hmembers d, hd, hfolds⟩
    · next hcall =>
      rw [← List.head?_map] at hcall
      split at h
      · next hnone =>
        obtain ⟨rfl, rfl, rfl⟩ := h
        rw [hnone, List.length_nil, Nat.mul_zero, List.drop_zero] at hwhole hcall ⊢
        exact ⟨.parameter name hword hwhole hcall, Nat.zero_le _, rfl⟩
      · next hsome =>
        obtain ⟨rfl, rfl, rfl⟩ := h
        exact ⟨.member name hword hmembers hsome hwhole hcall, Nat.zero_le _, rfl⟩
  · simp only [isKeyword, Bool.not_eq_false, Bool.or_eq_true, beq_iff_eq] at hword
    rcases hword with (rfl | rfl) | rfl
    · obtain ⟨rfl, rfl, rfl⟩ := reads_named_true.1 h
      exact ⟨.trueLiteral _, Nat.zero_le _, rfl⟩
    · obtain ⟨rfl, rfl, rfl⟩ := reads_named_false.1 h
      exact ⟨.falseLiteral _, Nat.zero_le _, rfl⟩
    · obtain ⟨rfl, rfl, rfl⟩ := reads_named_null.1 h
      exact ⟨.nullLiteral _, Nat.zero_le _, rfl⟩

theorem sound_primary (hitem : Sound item .expression bound) :
    Sound (primary item) .primary bound := by
  intro setting tokens rest folds e h
  match tokens with
  | [] => exact absurd h not_reads_primary_nil
  | ⟨.number value, start⟩ :: tail =>
    obtain ⟨rfl, rfl, rfl⟩ := reads_primary_cons.1 h
    exact ⟨.number value _, Nat.zero_le _, rfl⟩
  | ⟨.string value, start⟩ :: tail =>
    obtain ⟨rfl, rfl, rfl⟩ := reads_primary_cons.1 h
    exact ⟨.string value _, Nat.zero_le _, rfl⟩
  | ⟨.character, start⟩ :: tail =>
    obtain ⟨rfl, rfl, rfl⟩ := reads_primary_cons.1 h
    exact ⟨.character _, Nat.zero_le _, rfl⟩
  | ⟨.name name, start⟩ :: tail => exact sound_named hitem (reads_primary_cons.1 h)
  | ⟨.symbol symbol, start⟩ :: tail =>
    obtain ⟨rfl, middle, hinner, hclose, rfl⟩ := reads_primary_cons.1 h
    have hinner := hitem hinner
    rw [kinds_of_head? hclose] at hinner
    obtain ⟨d, hd, hfolds⟩ := hinner
    exact ⟨.parenthesis d, hd, hfolds⟩

theorem sound_suffixes (hitem : Sound item .expression bound) (count : Nat) (operand : Expr) :
    Sound (suffixes item count operand) (.suffixes operand) bound := by
  induction count generalizing operand with
  | zero =>
    intro setting tokens rest folds e h
    obtain ⟨rfl, rfl, rfl⟩ := reads_suffixes_zero.1 h
    exact ⟨.bare _ _, Nat.zero_le _, rfl⟩
  | succ count ih =>
    intro setting tokens rest folds e h
    match tokens with
    | [] =>
      obtain ⟨rfl, rfl, rfl⟩ := reads_suffixes_nil.1 h
      exact ⟨.bare _ _, Nat.zero_le _, rfl⟩
    | ⟨kind, start⟩ :: tail =>
      rw [reads_suffixes_cons] at h
      split at h
      · obtain ⟨before, es, middle, after, hes, ⟨later, hlater, rfl⟩, rfl⟩ := h
        obtain ⟨d, hd, hfolds⟩ := sound_arguments hitem .closeParen hes
        obtain ⟨ds, hds, hafter⟩ := ih _ hlater
        exact ⟨.invocation d ds, Nat.max_le.2 ⟨hd, hds⟩, by simp [hfolds, hafter]⟩
      · obtain ⟨before, es, middle, after, hes, ⟨later, hlater, rfl⟩, rfl⟩ := h
        obtain ⟨d, hd, hfolds⟩ := sound_arguments hitem .closeBracket hes
        obtain ⟨ds, hds, hafter⟩ := ih _ hlater
        exact ⟨.element d ds, Nat.max_le.2 ⟨hd, hds⟩, by simp [hfolds, hafter]⟩
      · obtain ⟨name, hname, later, hlater, rfl⟩ := h
        obtain ⟨ds, hds, hafter⟩ := ih _ hlater
        rw [List.map_cons, kinds_of_head? hname]
        exact ⟨.access name ds, hds, by simp [hafter]⟩
      · obtain ⟨rfl, rfl, rfl⟩ := h
        exact ⟨.bare _ _, Nat.zero_le _, rfl⟩

end Item

/-! ## The levels of the grammar -/

/-- A chain inside an expression, if those with one level of nesting less are sound. -/
theorem sound_chain {level budget : Nat}
    (hright : ∀ lower, budget = lower + 1 →
      Sound (binary (level + 1) lower) (.chain (level + 1)) lower)
    (hothers : ∀ lower, budget = lower + 1 → ∀ left,
      Sound (chain level lower left) (.links level left) lower) (left : Expr) :
    Sound (chain level budget left) (.links level left) budget := by
  intro setting tokens rest folds e h
  match tokens with
  | [] =>
    obtain ⟨rfl, rfl, rfl⟩ := reads_chain_nil.1 h
    exact ⟨.last _ _ _, Nat.zero_le _, rfl⟩
  | ⟨kind, start⟩ :: tail =>
    rw [reads_chain_cons] at h
    split at h
    · obtain ⟨rfl, rfl, rfl⟩ := h
      exact ⟨.last _ _ _, Nat.zero_le _, rfl⟩
    · next operator hoperator =>
      obtain ⟨lower, rfl, before, right, middle, after, hnext, hafter, rfl⟩ := h
      obtain ⟨d, hd, hfolds⟩ := hright lower rfl hnext
      obtain ⟨ds, hds, hlater⟩ := hothers lower rfl _ hafter
      obtain ⟨rfl, hbinds⟩ := symbol_of_operatorAt? hoperator
      exact ⟨.link operator hbinds d ds, Nat.succ_le_succ (Nat.max_le.2 ⟨hd, hds⟩),
        by simp [hfolds, hlater]⟩

theorem sound_unary {budget : Nat}
    (hlower : ∀ lower, budget = lower + 1 → Sound (unary lower) .unary lower)
    (hitem : Sound (expression budget) .expression budget) :
    Sound (unary budget) .unary budget := by
  intro setting tokens rest folds e h
  match tokens with
  | [] => exact absurd h not_reads_unary_nil
  | ⟨kind, start⟩ :: tail =>
    rw [reads_unary_cons] at h
    split at h
    · next operator hoperator =>
      obtain ⟨lower, rfl, operand, hoperand, rfl⟩ := h
      obtain ⟨d, hd, hfolds⟩ := hlower lower rfl hoperand
      obtain ⟨rfl, hsign⟩ := symbol_of_unaryOperator? hoperator
      exact ⟨.prefixed operator hsign d, Nat.succ_le_succ hd, hfolds⟩
    · split at h
      · next operand hconversion =>
        obtain ⟨lower, rfl, before, dropped, hdropped, rfl, rfl⟩ := h
        obtain ⟨d, hd, hfolds⟩ := hlower lower rfl hdropped
        exact ⟨.conversion (conversion_of_conversionAt? hconversion) d, Nat.succ_le_succ hd,
          by simp [hfolds]⟩
      · next hnone =>
        obtain ⟨before, base, middle, after, hprimary, hsuffixes, rfl⟩ := h
        obtain ⟨d, hd, hfolds⟩ := sound_primary hitem hprimary
        obtain ⟨ds, hds, hafter⟩ := sound_suffixes hitem _ _ hsuffixes
        exact ⟨.value (conversionAt?_eq_none_iff.1 hnone) d ds, Nat.max_le.2 ⟨hd, hds⟩,
          by simp [hfolds, hafter]⟩

theorem sound_binary_last {budget : Nat} (hunary : Sound (unary budget) .unary budget) :
    Sound (binary levelCount budget) (.chain levelCount) budget := by
  intro setting tokens rest folds e h
  obtain ⟨d, hd, hfolds⟩ := hunary (reads_binary_last.1 h)
  exact ⟨.operand d, hd, hfolds⟩

/-- A level of operators, if the next one and the further operands of every chain are sound. -/
theorem sound_binary {level budget : Nat} (hlevel : level < levelCount)
    (hfirst : Sound (binary (level + 1) budget) (.chain (level + 1)) budget)
    (hchain : ∀ left, Sound (chain level budget left) (.links level left) budget) :
    Sound (binary level budget) (.chain level) budget := by
  intro setting tokens rest folds e h
  obtain ⟨before, left, middle, after, hleft, hafter, rfl⟩ := (reads_binary hlevel).1 h
  obtain ⟨d, hd, hfolds⟩ := hfirst hleft
  obtain ⟨ds, hds, hlater⟩ := hchain left hafter
  exact ⟨.chain hlevel d ds, Nat.max_le.2 ⟨hd, hds⟩, by simp [hfolds, hlater]⟩

/-- An expression, if those with one level of nesting less are sound. -/
theorem sound_expression_succ {budget : Nat}
    (hcondition : Sound (binary 0 budget) (.chain 0) budget)
    (hbranch : Sound (expression budget) .expression budget) :
    Sound (expression (budget + 1)) .expression (budget + 1) := by
  intro setting tokens rest folds e h
  obtain ⟨before, condition, middle, after, hcond, hafter, rfl⟩ := reads_expression_succ.1 h
  have hcond := hcondition hcond
  split at hafter
  · next hmark =>
    obtain ⟨first, ifTrue, between, second, htrue, ⟨hcolon, ifFalse, hfalse, rfl⟩, rfl⟩ := hafter
    have htrue := hbranch htrue
    rw [kinds_of_head? hmark] at hcond
    rw [kinds_of_head? hcolon] at htrue
    obtain ⟨c, hc, hfolds⟩ := hcond
    obtain ⟨t, ht, hfirst⟩ := htrue
    obtain ⟨f, hf, hsecond⟩ := hbranch hfalse
    exact ⟨.conditional c t f, Nat.succ_le_succ (Nat.max_le.2 ⟨hc, Nat.max_le.2 ⟨ht, hf⟩⟩),
      by simp [hfolds, hfirst, hsecond]⟩
  · obtain ⟨rfl, rfl, rfl⟩ := hafter
    obtain ⟨d, hd, hfolds⟩ := hcond
    exact ⟨.plain d, Nat.succ_le_succ hd, by simpa using hfolds⟩

/-- Every parser of the grammar is sound at every budget. -/
theorem sound (budget : Nat) :
    Sound (expression budget) .expression budget ∧ Sound (unary budget) .unary budget ∧
      (∀ level, level < levelCount → ∀ left,
        Sound (chain level budget left) (.links level left) budget) ∧
      ∀ level, level ≤ levelCount → Sound (binary level budget) (.chain level) budget :=
  levels_induction (C := fun level budget => ∀ left,
      Sound (chain level budget left) (.links level left) budget)
    (B := fun level budget => Sound (binary level budget) (.chain level) budget)
    (fun _ _ _ _ _ h => absurd h not_reads_expression_zero)
    (fun _ => sound_unary) (fun _ _ _ => sound_chain) (fun _ => sound_binary_last)
    (fun _ _ => sound_binary) (fun _ => sound_expression_succ) budget

theorem sound_level (budget level : Nat) (hlevel : level ≤ levelCount) :
    Sound (binary level budget) (.chain level) budget :=
  (sound budget).2.2.2 level hlevel

end Formula.Parser
