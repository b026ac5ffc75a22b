import Formula.Proofs.Word
import Mathlib.Data.Nat.Init

set_option autoImplicit false

/-! # One call of each parser

For every parser of the grammar, what a successful run of it consists of. Later proofs about runs
take them apart with these lemmas and do not open the parsers. -/

namespace Formula.Parser

variable {setting : Setting} {tokens rest : List Token} {folds : List Fold} {e : Expr}

/-! ## Arguments -/

section Arguments

variable {item : Parser Expr} {close : Symbol} {es : List Expr}

theorem reads_argumentsFrom {commas : Nat} :
    (argumentsFrom item close commas).Reads setting tokens folds es rest ↔
      ∃ before first middle after, item.Reads setting tokens before first middle ∧
        (if middle.head?.map Token.kind = some (.symbol close) then
          after = [] ∧ [first] = es ∧ middle.drop 1 = rest
        else
          ∃ fewer, commas = fewer + 1 ∧ middle.head?.map Token.kind = some (.symbol .comma) ∧
            ∃ others,
              (argumentsFrom item close fewer).Reads setting (middle.drop 1) after others rest ∧
              first :: others = es) ∧
        folds = before ++ after := by
  rw [argumentsFrom.eq_def]
  refine reads_bind_congr fun first middle after => ?_
  rw [reads_accept_bind]
  by_cases hclose : middle.head?.map Token.kind = some (.symbol close)
  · simp only [if_pos hclose, if_true, reads_pure]
  · simp only [if_neg hclose, Bool.false_eq_true, if_false]
    cases commas with
    | zero => simp
    | succ fewer =>
      dsimp only
      rw [reads_accept_bind]
      by_cases hcomma : middle.head?.map Token.kind = some (.symbol .comma) <;>
        simp [hcomma, reads_bind_pure]

theorem reads_arguments :
    (arguments item close).Reads setting tokens folds es rest ↔
      if tokens.head?.map Token.kind = some (.symbol close) then
        folds = [] ∧ [] = es ∧ tokens.drop 1 = rest
      else (argumentsFrom item close tokens.length).Reads setting tokens folds es rest := by
  unfold arguments
  rw [reads_accept_bind]
  by_cases hclose : tokens.head?.map Token.kind = some (.symbol close)
  · simp only [if_pos hclose, if_true, reads_pure]
  · simp only [if_neg hclose, Bool.false_eq_true, if_false, reads_tokens_bind]

end Arguments

/-! ## Primary expressions -/

section Primary

variable {item : Parser Expr}

/-- A name that is no keyword: its members are taken, then the arguments of a
    call if there are any. -/
theorem reads_named {start : Nat} {name : String} (word : isKeyword name = false) :
    (named item start name).Reads setting tokens folds e rest ↔
      let members := memberNames tokens
      let behind := tokens.drop (2 * members.length)
      if behind.head?.map Token.kind = some (.symbol .openParen) then
        ∃ es, (arguments item .closeParen).Reads setting (behind.drop 1) folds es rest ∧
          .call (String.intercalate "." (name :: members)) es = e
      else if members = [] then folds = [] ∧ .parameter name = e ∧ behind = rest
      else folds = [⟨.memberAccess, start⟩] ∧
        e = .unsupported Construct.memberAccess.explanation ∧ rest = behind := by
  simp only [isKeyword, Bool.or_eq_false_iff, beq_eq_false_iff_ne, ne_eq] at word
  unfold named
  split
  · simp at word
  · simp at word
  · simp at word
  · rw [reads_tokens_bind, reads_skip_bind, reads_accept_bind]
    dsimp only
    by_cases hcall : (tokens.drop (2 * (memberNames tokens).length)).head?.map Token.kind =
        some (.symbol .openParen)
    · simp only [if_pos hcall, if_true, reads_bind_pure]
    · simp only [if_neg hcall, Bool.false_eq_true, if_false]
      by_cases hmembers : memberNames tokens = []
      · simp [hmembers]
      · simp [hmembers]

theorem reads_named_true {start : Nat} :
    (named item start "true").Reads setting tokens folds e rest ↔
      folds = [] ∧ .constant (.boolean true) = e ∧ tokens = rest := by
  simp [named]

theorem reads_named_false {start : Nat} :
    (named item start "false").Reads setting tokens folds e rest ↔
      folds = [] ∧ .constant (.boolean false) = e ∧ tokens = rest := by
  simp [named]

theorem reads_named_null {start : Nat} :
    (named item start "null").Reads setting tokens folds e rest ↔
      folds = [⟨.nullLiteral, start⟩] ∧ e = .unsupported Construct.nullLiteral.explanation ∧
        rest = tokens := by
  simp [named]

theorem not_reads_primary_nil : ¬ (primary item).Reads setting [] folds e rest := by
  simp [primary]

theorem reads_primary_cons {kind : Token.Kind} {start : Nat} {tail : List Token} :
    (primary item).Reads setting (⟨kind, start⟩ :: tail) folds e rest ↔
      match kind with
      | .number value => folds = [] ∧ .constant (.number value) = e ∧ tail = rest
      | .string value => folds = [] ∧ .constant (.string value) = e ∧ tail = rest
      | .character => folds = [⟨.characterLiteral, start⟩] ∧
          e = .unsupported Construct.characterLiteral.explanation ∧ rest = tail
      | .name name => (named item start name).Reads setting tail folds e rest
      | .symbol symbol => symbol = .openParen ∧ ∃ middle, item.Reads setting tail folds e middle ∧
          middle.head?.map Token.kind = some (.symbol .closeParen) ∧ middle.drop 1 = rest := by
  unfold primary
  rw [reads_position_bind, reads_next?_bind]
  simp only [List.head?_cons, Option.map_some]
  cases kind with
  | number value => simp
  | string value => simp
  | character => simp
  | name name => simp
  | symbol symbol =>
    by_cases hopen : symbol = .openParen
    · subst hopen
      dsimp only
      rw [reads_skip_bind, reads_bind]
      simp only [reads_expect_bind, reads_pure, List.drop_succ_cons, List.drop_zero, true_and]
      constructor
      · rintro ⟨before, inner, middle, after, hitem, ⟨hclose, rfl, rfl, rfl⟩, rfl⟩
        exact ⟨middle, by simpa using hitem, hclose, rfl⟩
      · rintro ⟨middle, hitem, hclose, rfl⟩
        exact ⟨folds, e, middle, [], hitem, ⟨hclose, rfl, rfl, rfl⟩, by simp⟩
    · simp [hopen]

/-! ## Suffixes -/

theorem reads_suffixes_zero {operand : Expr} :
    (suffixes item 0 operand).Reads setting tokens folds e rest ↔
      folds = [] ∧ operand = e ∧ tokens = rest := by
  simp [suffixes]

theorem reads_suffixes_nil {count : Nat} {operand : Expr} :
    (suffixes item count operand).Reads setting [] folds e rest ↔
      folds = [] ∧ operand = e ∧ [] = rest := by
  cases count <;> simp [suffixes]

theorem reads_suffixes_cons {count : Nat} {operand : Expr} {kind : Token.Kind} {start : Nat}
    {tail : List Token} :
    (suffixes item (count + 1) operand).Reads setting (⟨kind, start⟩ :: tail) folds e rest ↔
      match kind with
      | .symbol .openParen => ∃ before es middle after,
          (arguments item .closeParen).Reads setting tail before es middle ∧
            (∃ later, (suffixes item count (.unsupported
                Construct.computedInvocation.explanation)).Reads setting middle later e rest ∧
              after = ⟨.computedInvocation, start⟩ :: later) ∧
            folds = before ++ after
      | .symbol .openBracket => ∃ before es middle after,
          (arguments item .closeBracket).Reads setting tail before es middle ∧
            (∃ later, (suffixes item count (.unsupported
                Construct.elementAccess.explanation)).Reads setting middle later e rest ∧
              after = ⟨.elementAccess, start⟩ :: later) ∧
            folds = before ++ after
      | .symbol .dot => ∃ name, tail.head?.map Token.kind = some (.name name) ∧
          ∃ later, (suffixes item count (.unsupported
              Construct.memberAccess.explanation)).Reads setting (tail.drop 1) later e rest ∧
            folds = ⟨.memberAccess, start⟩ :: later
      | _ => folds = [] ∧ operand = e ∧ ⟨kind, start⟩ :: tail = rest := by
  rw [suffixes.eq_def]
  dsimp only
  rw [reads_position_bind, reads_next?_bind]
  simp only [List.head?_cons, Option.map_some]
  cases kind with
  | symbol symbol =>
    cases symbol with
    | openParen =>
      dsimp only
      rw [reads_skip_bind]
      exact reads_bind_congr fun es middle after => reads_fold_bind
    | openBracket =>
      dsimp only
      rw [reads_skip_bind]
      exact reads_bind_congr fun es middle after => reads_fold_bind
    | dot =>
      dsimp only
      rw [reads_skip_bind, reads_next?_bind]
      simp only [List.drop_succ_cons, List.drop_zero]
      split
      · next name hname =>
        simp [hname]
      · next hother =>
        simp only [not_reads_fail, false_iff, not_exists, not_and]
        intro name hname
        exact absurd hname (hother name)
    | _ => simp
  | _ => simp

end Primary

/-! ## Chains -/

theorem reads_chain_nil {level budget : Nat} {left : Expr} :
    (chain level budget left).Reads setting [] folds e rest ↔
      folds = [] ∧ left = e ∧ [] = rest := by
  rw [chain]
  simp

theorem reads_chain_cons {level budget : Nat} {left : Expr} {kind : Token.Kind} {start : Nat}
    {tail : List Token} :
    (chain level budget left).Reads setting (⟨kind, start⟩ :: tail) folds e rest ↔
      match kind.operatorAt? level with
      | none => folds = [] ∧ left = e ∧ ⟨kind, start⟩ :: tail = rest
      | some operator => ∃ lower, budget = lower + 1 ∧ ∃ before right middle after,
          (binary (level + 1) lower).Reads setting tail before right middle ∧
            (chain level lower (.binary operator.text left right)).Reads setting middle
              after e rest ∧
            folds = before ++ after := by
  rw [chain, reads_next?_bind]
  simp only [List.head?_cons, Option.map_some, Option.bind_some]
  cases kind.operatorAt? level with
  | none => simp
  | some operator =>
    dsimp only
    rw [reads_skip_bind]
    cases budget with
    | zero => simp
    | succ lower => simp [reads_bind]

theorem reads_binary {level budget : Nat} (inner : level < levelCount) :
    (binary level budget).Reads setting tokens folds e rest ↔
      ∃ before left middle after,
        (binary (level + 1) budget).Reads setting tokens before left middle ∧
          (chain level budget left).Reads setting middle after e rest ∧
          folds = before ++ after := by
  rw [binary, if_pos inner]
  exact reads_bind

theorem reads_binary_last {budget : Nat} :
    (binary levelCount budget).Reads setting tokens folds e rest ↔
      (unary budget).Reads setting tokens folds e rest := by
  rw [binary, if_neg (Nat.lt_irrefl _)]

/-! ## Unary operators and conversions -/

theorem not_reads_unary_nil {budget : Nat} :
    ¬ (unary budget).Reads setting [] folds e rest := by
  rw [unary, reads_next?_bind]
  simp only [List.head?_nil, Option.map_none, Option.bind_none]
  rw [reads_position_bind, reads_conversion?_bind]
  dsimp only [conversionAt?]
  rw [reads_bind]
  rintro ⟨before, base, middle, after, hprimary, -, -⟩
  exact not_reads_primary_nil hprimary

theorem reads_unary_cons {budget : Nat} {kind : Token.Kind} {start : Nat} {tail : List Token} :
    (unary budget).Reads setting (⟨kind, start⟩ :: tail) folds e rest ↔
      match kind.unaryOperator? with
      | some operator => ∃ lower, budget = lower + 1 ∧ ∃ operand,
          (unary lower).Reads setting tail folds operand rest ∧ .unary operator.text operand = e
      | none =>
        match conversionAt? (⟨kind, start⟩ :: tail) with
        | some operand => ∃ lower, budget = lower + 1 ∧ ∃ before dropped,
            (unary lower).Reads setting operand before dropped rest ∧
              e = .unsupported Construct.typeConversion.explanation ∧
              folds = before ++ [⟨.typeConversion, start⟩]
        | none => ∃ before base middle after,
            (primary (expression budget)).Reads setting (⟨kind, start⟩ :: tail) before base middle ∧
              (suffixes (expression budget) middle.length base).Reads setting middle after e rest ∧
              folds = before ++ after := by
  rw [unary, reads_next?_bind]
  simp only [List.head?_cons, Option.map_some, Option.bind_some]
  cases kind.unaryOperator? with
  | some operator =>
    dsimp only
    rw [reads_skip_bind]
    cases budget with
    | zero => simp
    | succ lower => simp [reads_bind_pure]
  | none =>
    dsimp only
    rw [reads_position_bind, reads_conversion?_bind]
    cases conversionAt? (⟨kind, start⟩ :: tail) with
    | some operand =>
      dsimp only
      rw [reads_resume_bind]
      cases budget with
      | zero => simp
      | succ lower =>
        simp only [reads_bind, reads_fold, List.head?_cons, Option.map_some, Option.getD_some]
        constructor
        · rintro ⟨before, dropped, middle, after, hunary, ⟨rfl, rfl, rfl⟩, rfl⟩
          exact ⟨lower, rfl, before, dropped, hunary, rfl, rfl⟩
        · rintro ⟨lower', hlower, before, dropped, hunary, rfl, rfl⟩
          obtain rfl := Nat.succ.inj hlower
          exact ⟨before, dropped, rest, _, hunary, ⟨rfl, rfl, rfl⟩, rfl⟩
    | none => exact reads_bind_congr fun base middle after => reads_tokens_bind

/-! ## Expressions -/

theorem not_reads_expression_zero : ¬ (expression 0).Reads setting tokens folds e rest := by
  rw [expression]
  exact not_reads_tooDeep

theorem reads_expression_succ {budget : Nat} :
    (expression (budget + 1)).Reads setting tokens folds e rest ↔
      ∃ before condition middle after,
        (binary 0 budget).Reads setting tokens before condition middle ∧
        (if middle.head?.map Token.kind = some (.symbol .question) then
          ∃ first ifTrue between second, (expression budget).Reads setting (middle.drop 1) first
              ifTrue between ∧
            (between.head?.map Token.kind = some (.symbol .colon) ∧ ∃ ifFalse,
              (expression budget).Reads setting (between.drop 1) second ifFalse rest ∧
                .conditional condition ifTrue ifFalse = e) ∧
            after = first ++ second
        else after = [] ∧ condition = e ∧ middle = rest) ∧
        folds = before ++ after := by
  rw [expression]
  refine reads_bind_congr fun condition middle after => ?_
  rw [reads_accept_bind]
  by_cases hmark : middle.head?.map Token.kind = some (.symbol .question)
  · simp only [if_pos hmark, if_true]
    refine reads_bind_congr fun ifTrue between second => ?_
    rw [reads_expect_bind, reads_bind_pure]
  · simp only [if_neg hmark, Bool.false_eq_true, if_false, reads_pure]

/-! ## All calls -/

/-- What the levels of the grammar pass on to each other holds under every budget: a property `E` of
    expressions, `U` of unary expressions, `C` of the rest of a chain and `B` of a level of binary
    operators, which comes from the next tighter level. -/
theorem levels_induction {E U : Nat → Prop} {C B : Nat → Nat → Prop} (zero : E 0)
    (unary : ∀ budget, (∀ lower, budget = lower + 1 → U lower) → E budget → U budget)
    (chain : ∀ level budget, level < levelCount →
      (∀ lower, budget = lower + 1 → B (level + 1) lower) →
      (∀ lower, budget = lower + 1 → C level lower) → C level budget)
    (last : ∀ budget, U budget → B levelCount budget)
    (binary : ∀ level budget, level < levelCount → B (level + 1) budget → C level budget →
      B level budget)
    (expression : ∀ budget, B 0 budget → E budget → E (budget + 1)) (budget : Nat) :
    E budget ∧ U budget ∧ (∀ level, level < levelCount → C level budget) ∧
      ∀ level, level ≤ levelCount → B level budget := by
  -- what a budget passes on from the tightest level to the loosest one
  have hlevels (budget : Nat) (hunary : U budget)
      (hchain : ∀ level, level < levelCount → C level budget) (level : Nat)
      (hlevel : level ≤ levelCount) : B level budget := by
    induction hlevel using Nat.decreasingInduction with
    | self => exact last budget hunary
    | of_succ level hlevel ih => exact binary level budget hlevel ih (hchain level hlevel)
  induction budget with
  | zero =>
    have hunary := unary 0 (fun _ h => by cases h) zero
    have hchain (level : Nat) (hlevel : level < levelCount) : C level 0 :=
      chain level 0 hlevel (fun _ h => by cases h) (fun _ h => by cases h)
    exact ⟨zero, hunary, hchain, hlevels 0 hunary hchain⟩
  | succ budget ih =>
    obtain ⟨hexpression, hunary, hchain, hbinary⟩ := ih
    have hnext := expression budget (hbinary 0 (Nat.zero_le _)) hexpression
    have hunaryNext : U (budget + 1) := by
      refine unary (budget + 1) (fun lower h => ?_) hnext
      obtain rfl := Nat.succ.inj h
      exact hunary
    have hchainNext (level : Nat) (hlevel : level < levelCount) : C level (budget + 1) := by
      refine chain level (budget + 1) hlevel (fun lower h => ?_) (fun lower h => ?_)
      · obtain rfl := Nat.succ.inj h
        exact hbinary (level + 1) hlevel
      · obtain rfl := Nat.succ.inj h
        exact hchain level hlevel
    exact ⟨hnext, hunaryNext, hchainNext, hlevels (budget + 1) hunaryNext hchainNext⟩

end Formula.Parser
