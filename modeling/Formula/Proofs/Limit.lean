import Formula.Parse
import Formula.Proofs.Completeness
import Formula.Proofs.Failure
import Formula.Proofs.Soundness
import Mathlib.Data.List.Basic

set_option autoImplicit false

/-! # What the limit decides

A lower limit gives no other answer than a higher one, save that it is exceeded. And a
limit above the number of tokens is never exceeded: every level of nesting takes a token
that no other level takes. -/

namespace Formula

open Grammar

namespace Parser

variable {α β : Type}

/-! ## A lower limit and a higher one -/

section Restricts

/-- Under the setting `low` the parser `p` answers as `q` does under `high`, or says that
    the text nests too deeply. -/
def Restricts (low high : Setting) (p q : Parser α) : Prop :=
  ∀ tokens, p low tokens = q high tokens ∨
    ∃ folds position, p low tokens = ⟨folds, .error ⟨position, .tooDeep low.maxDepth⟩⟩

variable {low high : Setting} {item item' : Parser Expr}

theorem restricts_tooDeep (q : Parser α) : Restricts low high tooDeep q := by
  intro tokens
  exact .inr ⟨[], _, rfl⟩

theorem restricts_bind {p q : Parser α} {f g : α → Parser β} (hp : Restricts low high p q)
    (hf : ∀ a, Restricts low high (f a) (g a)) : Restricts low high (p >>= f) (q >>= g) := by
  intro tokens
  show Parser.bind p f low tokens = Parser.bind q g high tokens ∨
    ∃ folds position, Parser.bind p f low tokens = _
  unfold Parser.bind
  rcases hp tokens with heq | ⟨folds, position, hdeep⟩
  · rw [heq]
    rcases q high tokens with ⟨folds, error | ⟨a, rest⟩⟩
    · exact .inl rfl
    · dsimp only
      rcases hf a rest with heq | ⟨later, position, hdeep⟩
      · exact .inl (by rw [heq])
      · exact .inr ⟨folds ++ later, position, by rw [hdeep]⟩
  · exact .inr ⟨folds, position, by rw [hdeep]⟩

theorem restricts_pure (a : α) : Restricts low high (pure a) (pure a) :=
  fun _ => .inl rfl

theorem restricts_next? : Restricts low high next? next? :=
  fun _ => .inl rfl

theorem restricts_tokens : Restricts low high tokens tokens :=
  fun _ => .inl rfl

theorem restricts_skip (n : Nat) : Restricts low high (skip n) (skip n) :=
  fun _ => .inl rfl

theorem restricts_resume (rest : List Token) : Restricts low high (resume rest) (resume rest) :=
  fun _ => .inl rfl

theorem restricts_fold (construct : Construct) (start : Nat) :
    Restricts low high (fold construct start) (fold construct start) :=
  fun _ => .inl rfl

theorem restricts_conversion? : Restricts low high conversion? conversion? := by
  intro tokens
  have hlow : conversion? low tokens = _ := reads_conversion? low tokens
  have hhigh : conversion? high tokens = _ := reads_conversion? high tokens
  exact .inl (hlow.trans hhigh.symm)

theorem restricts_accept (symbol : Symbol) :
    Restricts low high (accept symbol) (accept symbol) := by
  unfold accept
  refine restricts_bind restricts_next? fun next => ?_
  split
  · exact restricts_bind (restricts_skip 1) fun _ => restricts_pure true
  · exact restricts_pure false

section Item

variable (hstop : low.stop = high.stop)
include hstop

theorem restricts_position : Restricts low high position position := by
  intro tokens
  unfold position
  rw [hstop]
  exact .inl rfl

theorem restricts_fail (cause : ParseError.Cause) :
    Restricts low high (fail cause : Parser α) (fail cause) := by
  intro tokens
  unfold fail
  rw [hstop]
  exact .inl rfl

theorem restricts_expect (symbol : Symbol) :
    Restricts low high (expect symbol) (expect symbol) := by
  unfold expect
  refine restricts_bind (restricts_accept symbol) fun found => ?_
  split
  · exact restricts_pure ()
  · exact restricts_bind restricts_next? fun next => restricts_fail hstop _

/-! ### Parsers inside one level of nesting -/

variable (hitem : Restricts low high item item')
include hitem

theorem restricts_argumentsFrom (close : Symbol) (commas : Nat) :
    Restricts low high (argumentsFrom item close commas) (argumentsFrom item' close commas) := by
  induction commas with
  | zero =>
    rw [argumentsFrom.eq_def, argumentsFrom.eq_def]
    refine restricts_bind hitem fun first =>
      restricts_bind (restricts_accept close) fun closed => ?_
    split
    · exact restricts_pure _
    · exact restricts_bind restricts_next? fun next => restricts_fail hstop _
  | succ commas ih =>
    rw [argumentsFrom.eq_def, argumentsFrom.eq_def]
    refine restricts_bind hitem fun first =>
      restricts_bind (restricts_accept close) fun closed => ?_
    split
    · exact restricts_pure _
    · refine restricts_bind (restricts_accept .comma) fun separated => ?_
      split
      · exact restricts_bind ih fun others => restricts_pure _
      · exact restricts_bind restricts_next? fun next => restricts_fail hstop _

theorem restricts_arguments (close : Symbol) :
    Restricts low high (arguments item close) (arguments item' close) := by
  unfold arguments
  refine restricts_bind (restricts_accept close) fun closed => ?_
  split
  · exact restricts_pure _
  · exact restricts_bind restricts_tokens fun tokens =>
      restricts_argumentsFrom hstop hitem close tokens.length

theorem restricts_named (start : Nat) (name : String) :
    Restricts low high (named item start name) (named item' start name) := by
  unfold named
  split
  · exact restricts_pure _
  · exact restricts_pure _
  · exact restricts_fold _ _
  · refine restricts_bind restricts_tokens fun tokens => restricts_bind (restricts_skip _) fun _ =>
      restricts_bind (restricts_accept .openParen) fun called => ?_
    split
    · exact restricts_bind (restricts_arguments hstop hitem .closeParen) fun es => restricts_pure _
    · split
      · exact restricts_pure _
      · exact restricts_fold _ _

theorem restricts_primary : Restricts low high (primary item) (primary item') := by
  unfold primary
  refine restricts_bind (restricts_position hstop) fun start => restricts_bind restricts_next?
    fun next => ?_
  split
  · exact restricts_bind (restricts_skip 1) fun _ => restricts_pure _
  · exact restricts_bind (restricts_skip 1) fun _ => restricts_pure _
  · exact restricts_bind (restricts_skip 1) fun _ => restricts_fold _ _
  · exact restricts_bind (restricts_skip 1) fun _ => restricts_named hstop hitem start _
  · exact restricts_bind (restricts_skip 1) fun _ => restricts_bind hitem fun inner =>
      restricts_bind (restricts_expect hstop .closeParen) fun _ => restricts_pure inner
  · exact restricts_fail hstop _
  · exact restricts_fail hstop _

theorem restricts_suffixes (count : Nat) (e : Expr) :
    Restricts low high (suffixes item count e) (suffixes item' count e) := by
  induction count generalizing e with
  | zero => exact restricts_pure e
  | succ count ih =>
    rw [suffixes.eq_def, suffixes.eq_def]
    refine restricts_bind (restricts_position hstop) fun start => restricts_bind restricts_next?
      fun next => ?_
    split
    · exact restricts_bind (restricts_skip 1) fun _ =>
        restricts_bind (restricts_arguments hstop hitem .closeParen) fun _ =>
          restricts_bind (restricts_fold _ _) ih
    · exact restricts_bind (restricts_skip 1) fun _ =>
        restricts_bind (restricts_arguments hstop hitem .closeBracket) fun _ =>
          restricts_bind (restricts_fold _ _) ih
    · refine restricts_bind (restricts_skip 1) fun _ =>
        restricts_bind restricts_next? fun member => ?_
      split
      · exact restricts_bind (restricts_skip 1) fun _ => restricts_bind (restricts_fold _ _) ih
      · exact restricts_fail hstop _
    · exact restricts_pure e

end Item

/-! ### The levels of the grammar -/

/-- A chain, if those with one level of nesting less restrict each other. -/
theorem restricts_chain {level fewer : Nat}
    (hright : ∀ lower, fewer = lower + 1 → ∀ more, lower ≤ more →
      Restricts low high (binary (level + 1) lower) (binary (level + 1) more))
    (hothers : ∀ lower, fewer = lower + 1 → ∀ more, lower ≤ more → ∀ left,
      Restricts low high (chain level lower left) (chain level more left))
    (more : Nat) (hle : fewer ≤ more) (left : Expr) :
    Restricts low high (chain level fewer left) (chain level more left) := by
  rw [chain.eq_def level fewer, chain.eq_def level more]
  refine restricts_bind restricts_next? fun next => ?_
  split
  · exact restricts_pure left
  · refine restricts_bind (restricts_skip 1) fun _ => ?_
    cases fewer with
    | zero => exact restricts_tooDeep _
    | succ fewer =>
      obtain ⟨more, rfl⟩ := Nat.exists_eq_add_of_lt hle
      have hlower : fewer ≤ fewer + more := Nat.le_add_right _ _
      exact restricts_bind (hright fewer rfl _ hlower) fun right => hothers fewer rfl _ hlower _

theorem restricts_unary (hstop : low.stop = high.stop) {fewer : Nat}
    (hoperand : ∀ lower, fewer = lower + 1 → ∀ more, lower ≤ more →
      Restricts low high (unary lower) (unary more))
    (hitem : ∀ more, fewer ≤ more → Restricts low high (expression fewer) (expression more))
    (more : Nat) (hle : fewer ≤ more) : Restricts low high (unary fewer) (unary more) := by
  rw [unary.eq_def fewer, unary.eq_def more]
  refine restricts_bind restricts_next? fun next => ?_
  split
  · refine restricts_bind (restricts_skip 1) fun _ => ?_
    cases fewer with
    | zero => exact restricts_tooDeep _
    | succ fewer =>
      obtain ⟨more, rfl⟩ := Nat.exists_eq_add_of_lt hle
      exact restricts_bind (hoperand fewer rfl _ (Nat.le_add_right _ _)) fun operand =>
        restricts_pure _
  · refine restricts_bind (restricts_position hstop) fun start =>
      restricts_bind restricts_conversion? fun conversion => ?_
    split
    · refine restricts_bind (restricts_resume _) fun _ => ?_
      cases fewer with
      | zero => exact restricts_tooDeep _
      | succ fewer =>
        obtain ⟨more, rfl⟩ := Nat.exists_eq_add_of_lt hle
        exact restricts_bind (hoperand fewer rfl _ (Nat.le_add_right _ _)) fun _ =>
          restricts_fold _ _
    · exact restricts_bind (restricts_primary hstop (hitem more hle)) fun e =>
        restricts_bind restricts_tokens fun tokens =>
          restricts_suffixes hstop (hitem more hle) tokens.length e

theorem restricts_binary_last {fewer : Nat}
    (hunary : ∀ more, fewer ≤ more → Restricts low high (unary fewer) (unary more))
    (more : Nat) (hle : fewer ≤ more) :
    Restricts low high (binary levelCount fewer) (binary levelCount more) := by
  rw [binary.eq_def _ fewer, binary.eq_def _ more, if_neg (Nat.lt_irrefl _),
    if_neg (Nat.lt_irrefl _)]
  exact hunary more hle

theorem restricts_binary {level fewer : Nat} (hlevel : level < levelCount)
    (hfirst : ∀ more, fewer ≤ more →
      Restricts low high (binary (level + 1) fewer) (binary (level + 1) more))
    (hchain : ∀ more, fewer ≤ more → ∀ left,
      Restricts low high (chain level fewer left) (chain level more left))
    (more : Nat) (hle : fewer ≤ more) :
    Restricts low high (binary level fewer) (binary level more) := by
  rw [binary.eq_def level fewer, binary.eq_def level more, if_pos hlevel, if_pos hlevel]
  exact restricts_bind (hfirst more hle) (hchain more hle)

theorem restricts_expression_succ (hstop : low.stop = high.stop) {fewer : Nat}
    (hcondition : ∀ more, fewer ≤ more → Restricts low high (binary 0 fewer) (binary 0 more))
    (hbranch : ∀ more, fewer ≤ more → Restricts low high (expression fewer) (expression more))
    (more : Nat) (hle : fewer + 1 ≤ more) :
    Restricts low high (expression (fewer + 1)) (expression more) := by
  obtain ⟨more, rfl⟩ : ∃ lower, more = lower + 1 := ⟨more - 1, by omega⟩
  have hlower := Nat.le_of_succ_le_succ hle
  rw [expression.eq_def (fewer + 1), expression.eq_def (more + 1)]
  refine restricts_bind (hcondition more hlower) fun condition =>
    restricts_bind (restricts_accept .question) fun found => ?_
  split
  · exact restricts_bind (hbranch more hlower) fun ifTrue =>
      restricts_bind (restricts_expect hstop .colon) fun _ =>
        restricts_bind (hbranch more hlower) fun ifFalse => restricts_pure _
  · exact restricts_pure condition

/-- A budget restricts every higher one. -/
theorem restricts (hstop : low.stop = high.stop) (fewer : Nat) :
    (∀ more, fewer ≤ more → Restricts low high (expression fewer) (expression more)) ∧
      (∀ more, fewer ≤ more → Restricts low high (unary fewer) (unary more)) ∧
      (∀ level, level < levelCount → ∀ more, fewer ≤ more → ∀ left,
        Restricts low high (chain level fewer left) (chain level more left)) ∧
      ∀ level, level ≤ levelCount → ∀ more, fewer ≤ more →
        Restricts low high (binary level fewer) (binary level more) := by
  have hzero (more : Nat) (_ : 0 ≤ more) : Restricts low high (expression 0) (expression more) := by
    rw [expression.eq_def 0]
    exact restricts_tooDeep _
  exact levels_induction
    (C := fun level fewer => ∀ more, fewer ≤ more → ∀ left,
      Restricts low high (chain level fewer left) (chain level more left))
    (B := fun level fewer => ∀ more, fewer ≤ more →
      Restricts low high (binary level fewer) (binary level more))
    hzero (fun _ => restricts_unary hstop) (fun _ _ _ => restricts_chain)
    (fun _ => restricts_binary_last) (fun _ _ => restricts_binary)
    (fun _ => restricts_expression_succ hstop) fewer

theorem restricts_formula (hstop : low.stop = high.stop) {fewer more : Nat} (hle : fewer ≤ more) :
    Restricts low high (formula fewer) (formula more) := by
  unfold formula
  refine restricts_bind ((restricts hstop fewer).1 more hle) fun e =>
    restricts_bind restricts_next? fun next => ?_
  split
  · exact restricts_pure e
  · exact restricts_fail hstop _
  · exact restricts_fail hstop _
  · exact restricts_fail hstop _

end Restricts

/-! ## A limit above the number of tokens -/

section Spared

/-- On fewer tokens than `bound` the parser does not say that they nest too deeply. -/
def Spared (p : Parser α) (bound : Nat) : Prop :=
  ∀ ⦃setting : Setting⦄ ⦃tokens : List Token⦄ ⦃error : ParseError⦄, p.Fails setting tokens error →
    tokens.length < bound → ∀ limit, error.cause ≠ .tooDeep limit

variable {item : Parser Expr} {budget bound : Nat}

/-- What a sound parser leaves is shorter by what its phrase takes at least. -/
theorem Sound.length_le {p : Parser α} {phrase : α → Phrase} (hp : Sound p phrase bound)
    {setting : Setting} {tokens rest : List Token} {folds : List Fold} {a : α}
    (h : p.Reads setting tokens folds a rest) :
    rest.length + (phrase a).least ≤ tokens.length := by
  obtain ⟨d, -, -⟩ := hp h
  have hlength := d.nesting_add_length_le
  rw [List.length_map, List.length_map] at hlength
  omega

/-- An error that says what was expected says nothing about nesting. -/
theorem cause_errorAt {setting : Setting} {tokens : List Token} {cause : ParseError.Cause}
    {error : ParseError} (h : error = setting.errorAt tokens cause) : error.cause = cause := by
  rw [h]
  rfl

/-! ### Parsers inside one level of nesting -/

section Item

variable (hsound : Sound item .expression budget) (hitem : Spared item bound)
include hsound hitem

theorem spared_argumentsFrom (close : Symbol) (commas : Nat) :
    Spared (argumentsFrom item close commas) bound := by
  induction commas with
  | zero =>
    intro setting tokens error h hlength limit
    rcases fails_argumentsFrom h with
      h | ⟨before, first, middle, -, -, herror | ⟨fewer, hfewer, -⟩⟩
    · exact hitem h hlength limit
    · rw [cause_errorAt herror]
      simp
    · cases hfewer
  | succ commas ih =>
    intro setting tokens error h hlength limit
    rcases fails_argumentsFrom h with
      h | ⟨before, first, middle, hfirst, -, herror | ⟨fewer, hfewer, -, h⟩⟩
    · exact hitem h hlength limit
    · rw [cause_errorAt herror]
      simp
    · obtain rfl := Nat.succ.inj hfewer
      have hmiddle := hsound.length_le hfirst
      exact ih h (by rw [List.length_drop]; omega) limit

theorem spared_arguments (close : Symbol) : Spared (arguments item close) bound :=
  fun _ _ _ h => spared_argumentsFrom hsound hitem close _ (fails_arguments h)

theorem spared_named (start : Nat) (name : String) : Spared (named item start name) bound := by
  intro setting tokens error h hlength limit
  obtain ⟨-, -, h⟩ := fails_named h
  refine spared_arguments hsound hitem .closeParen h ?_ limit
  rw [List.length_drop, List.length_drop]
  omega

theorem spared_primary : Spared (primary item) (bound + 1) := by
  intro setting tokens error h hlength limit
  match tokens with
  | [] =>
    rw [cause_errorAt (fails_primary_nil h)]
    simp
  | ⟨kind, start⟩ :: tail =>
    have htail : tail.length < bound := by simpa using hlength
    rcases fails_primary_cons h with
      ⟨name, -, h⟩ | ⟨-, h | ⟨_, _, _, -, herror⟩⟩ | ⟨symbol, -, -, herror⟩
    · exact spared_named hsound hitem start name h htail limit
    · exact hitem h htail limit
    · rw [cause_errorAt herror]
      simp
    · rw [cause_errorAt herror]
      simp

theorem spared_suffixes (count : Nat) (operand : Expr) :
    Spared (suffixes item count operand) (bound + 1) := by
  induction count generalizing operand with
  | zero =>
    intro setting tokens error h
    exact absurd h not_fails_suffixes_zero
  | succ count ih =>
    intro setting tokens error h hlength limit
    match tokens with
    | [] => exact absurd h not_fails_suffixes_nil
    | ⟨kind, start⟩ :: tail =>
      have htail : tail.length < bound := by simpa using hlength
      rcases fails_suffixes_cons h with
        ⟨-, h | ⟨_, _, middle, hread, h⟩⟩ | ⟨-, h | ⟨_, _, middle, hread, h⟩⟩ |
        ⟨-, ⟨-, herror⟩ | ⟨_, -, h⟩⟩
      · exact spared_arguments hsound hitem .closeParen h htail limit
      · have hmiddle := (sound_arguments hsound .closeParen).length_le hread
        exact ih _ h (by omega) limit
      · exact spared_arguments hsound hitem .closeBracket h htail limit
      · have hmiddle := (sound_arguments hsound .closeBracket).length_le hread
        exact ih _ h (by omega) limit
      · rw [cause_errorAt herror]
        simp
      · exact ih _ h (by rw [List.length_drop]; omega) limit

end Item

/-! ### The levels of the grammar

Each operator that takes from the budget takes a token as well, so the tokens run out first. -/

theorem spared_chain {level : Nat} (hlevel : level < levelCount)
    (hright : ∀ lower, budget = lower + 1 → Spared (binary (level + 1) lower) (lower + 1))
    (hothers : ∀ lower, budget = lower + 1 → ∀ left,
      Spared (chain level lower left) (lower + 1)) (left : Expr) :
    Spared (chain level budget left) (budget + 1) := by
  intro setting tokens error h hlength limit
  match tokens with
  | [] => exact absurd h not_fails_chain_nil
  | ⟨kind, start⟩ :: tail =>
    have htail : tail.length < budget := by simpa using hlength
    obtain ⟨operator, -, ⟨rfl, -⟩ | ⟨lower, rfl, h | ⟨_, right, middle, hread, h⟩⟩⟩ :=
      fails_chain_cons h
    · exact absurd htail (Nat.not_lt_zero _)
    · exact hright lower rfl h htail limit
    · have hmiddle := (sound_level lower (level + 1) hlevel).length_le hread
      exact hothers lower rfl _ h (by omega) limit

theorem spared_unary (hlower : ∀ lower, budget = lower + 1 → Spared (unary lower) (lower + 1))
    (hitem : Spared (expression budget) budget) : Spared (unary budget) (budget + 1) := by
  intro setting tokens error h hlength limit
  match tokens with
  | [] =>
    rw [cause_errorAt (fails_unary_nil h)]
    simp
  | ⟨kind, start⟩ :: tail =>
    have htail : tail.length < budget := by simpa using hlength
    have hsound := (sound budget).1
    replace h := fails_unary_cons h
    split at h
    · obtain ⟨rfl, -⟩ | ⟨lower, rfl, h⟩ := h
      · exact absurd htail (Nat.not_lt_zero _)
      · exact hlower lower rfl h htail limit
    · split at h
      · next operand hconversion =>
        have hoperand := (conversion_of_conversionAt? hconversion).length_lt
        simp only [List.length_map, List.length_cons] at hoperand
        obtain ⟨rfl, -⟩ | ⟨lower, rfl, hfails⟩ := h
        · exact absurd htail (Nat.not_lt_zero _)
        · exact hlower lower rfl hfails (by omega) limit
      · obtain h | ⟨_, base, middle, hread, h⟩ := h
        · exact spared_primary hsound hitem h hlength limit
        · have hmiddle := (sound_primary hsound).length_le hread
          exact spared_suffixes hsound hitem _ _ h (by omega) limit

theorem spared_binary_last (hunary : Spared (unary budget) (budget + 1)) :
    Spared (binary levelCount budget) (budget + 1) := by
  intro setting tokens error h
  exact hunary (fails_binary_last h)

theorem spared_binary {level : Nat} (hlevel : level < levelCount)
    (hfirst : Spared (binary (level + 1) budget) (budget + 1))
    (hchain : ∀ left, Spared (chain level budget left) (budget + 1)) :
    Spared (binary level budget) (budget + 1) := by
  intro setting tokens error h hlength limit
  rcases fails_binary hlevel h with h | ⟨_, left, middle, hread, h⟩
  · exact hfirst h hlength limit
  · have hmiddle := (sound_level budget (level + 1) hlevel).length_le hread
    exact hchain left h (by omega) limit

theorem spared_expression_succ (hcondition : Spared (binary 0 budget) (budget + 1))
    (hbranch : Spared (expression budget) budget) :
    Spared (expression (budget + 1)) (budget + 1) := by
  intro setting tokens error h hlength limit
  have hsound := sound_level budget 0 (Nat.zero_le _)
  rcases fails_expression_succ h with
    h | ⟨_, condition, middle, hread, -, h | ⟨_, ifTrue, between, htrue, herror | ⟨-, h⟩⟩⟩
  · exact hcondition h hlength limit
  · have hmiddle := hsound.length_le hread
    simp only [Phrase.least] at hmiddle
    exact hbranch h (by rw [List.length_drop]; omega) limit
  · rw [cause_errorAt herror]
    simp
  · have hmiddle := hsound.length_le hread
    have hbetween := (sound budget).1.length_le htrue
    simp only [Phrase.least, List.length_drop] at hmiddle hbetween
    exact hbranch h (by rw [List.length_drop]; omega) limit

theorem spared (budget : Nat) :
    Spared (expression budget) budget ∧ Spared (unary budget) (budget + 1) ∧
      (∀ level, level < levelCount → ∀ left, Spared (chain level budget left) (budget + 1)) ∧
      ∀ level, level ≤ levelCount → Spared (binary level budget) (budget + 1) :=
  levels_induction (C := fun level budget => ∀ left, Spared (chain level budget left) (budget + 1))
    (B := fun level budget => Spared (binary level budget) (budget + 1))
    (fun _ _ _ _ hlength => absurd hlength (Nat.not_lt_zero _))
    (fun _ => spared_unary) (fun _ _ => spared_chain) (fun _ => spared_binary_last)
    (fun _ _ => spared_binary) (fun _ => spared_expression_succ) budget

end Spared

/-! ## Whole texts -/

/-- A text fails in its expression or behind it. -/
theorem fails_formula {setting : Setting} {tokens : List Token} {error : ParseError} {budget : Nat}
    (h : (formula budget).Fails setting tokens error) :
    (expression budget).Fails setting tokens error ∨ ∃ before e middle cause,
      (expression budget).Reads setting tokens before e middle ∧ middle ≠ [] ∧
        error = setting.errorAt middle cause ∧ ∀ limit, cause ≠ .tooDeep limit := by
  unfold formula at h
  rw [fails_bind] at h
  rcases h with h | ⟨before, e, middle, hread, h⟩
  · exact .inl h
  refine .inr ⟨before, e, middle, ?_⟩
  rw [fails_next?_bind] at h
  match middle with
  | [] => simp at h
  | ⟨kind, start⟩ :: tail =>
    simp only [List.head?_cons, Option.map_some] at h
    split at h
    · next hnone => cases hnone
    · exact ⟨_, hread, by simp, fails_fail.1 h, by simp⟩
    · exact ⟨_, hread, by simp, fails_fail.1 h, by simp⟩
    · exact ⟨_, hread, by simp, fails_fail.1 h, by simp⟩

theorem spared_formula (budget : Nat) : Spared (formula budget) budget := by
  intro setting tokens error h hlength limit
  rcases fails_formula h with h | ⟨_, _, _, cause, -, -, herror, hcause⟩
  · exact (spared budget).1 h hlength limit
  · rw [cause_errorAt herror]
    exact hcause limit

end Parser

open Formula.Parser

/-- A run that fails on the tokens of a text. -/
theorem fails_formula_of_parseWith {text : String} {tokens : List Token} {limit : Nat}
    {error : ParseError} (htokens : Token.tokenize text = .ok tokens)
    (h : parseWith ⟨limit⟩ text = .error error) :
    (formula limit).Fails ⟨text.utf8ByteSize, limit⟩ tokens error := by
  unfold parseWith parseRecording at h
  rw [htokens] at h
  dsimp only at h
  unfold Fails
  cases hresult : (formula limit ⟨text.utf8ByteSize, limit⟩ tokens).result with
  | error error' =>
    rw [hresult] at h
    cases h
    rfl
  | ok a =>
    rw [hresult] at h
    cases h

/-- A text is refused for its nesting, or parsed under a lower limit as under a higher one. -/
theorem parseWith_eq_or_tooDeep (text : String) {lower higher : Nat} (h : lower ≤ higher) :
    parseWith ⟨lower⟩ text = parseWith ⟨higher⟩ text ∨
      ∃ position, parseWith ⟨lower⟩ text = .error ⟨position, .tooDeep lower⟩ := by
  unfold parseWith parseRecording
  cases Token.tokenize text with
  | error error => exact .inl rfl
  | ok tokens =>
    have hrestricts : Restricts ⟨text.utf8ByteSize, lower⟩ ⟨text.utf8ByteSize, higher⟩
        (formula lower) (formula higher) := by
      refine restricts_formula ?_ h
      rfl
    rcases hrestricts tokens with heq | ⟨folds, position, hdeep⟩
    · exact .inl (by simp only [heq])
    · exact .inr ⟨position, by simp only [hdeep]; rfl⟩

/-- The limit refuses texts and changes nothing else: under a lower limit a text has the result
    that it has under a higher one, or the error that it nests deeper than the lower limit. A
    limit that is at least the number of the tokens, with the end of the text counted as one,
    gives that error to no text. -/
theorem limit_only_refuses (text : String) :
    (∀ lower higher, lower ≤ higher →
      parseWith ⟨lower⟩ text = parseWith ⟨higher⟩ text ∨
        ∃ position, parseWith ⟨lower⟩ text = .error ⟨position, .tooDeep lower⟩) ∧
    ∀ tokens limit, Token.tokenize text = .ok tokens → tokens.length + 1 ≤ limit →
      ∀ position refused, parseWith ⟨limit⟩ text ≠ .error ⟨position, .tooDeep refused⟩ := by
  refine ⟨fun lower higher => parseWith_eq_or_tooDeep text, ?_⟩
  intro tokens limit htokens hlimit position refused h
  have hfails := fails_formula_of_parseWith htokens h
  exact spared_formula limit hfails (by omega) refused rfl

/-- Two parentheses nest deeper than 1. Under a limit of 6 a text of five tokens does not. -/
theorem limit_only_refuses_parentheses :
    (parseWith ⟨1⟩ "((a))" = parseWith ⟨6⟩ "((a))" ∨
      ∃ position, parseWith ⟨1⟩ "((a))" = .error ⟨position, .tooDeep 1⟩) ∧
    (∀ position refused, parseWith ⟨6⟩ "((a))" ≠ .error ⟨position, .tooDeep refused⟩) ∧
    parseWith ⟨1⟩ "((a))" = .error ⟨1, .tooDeep 1⟩ := by
  have htokens : Token.tokenize "((a))" = .ok [⟨.symbol .openParen, 0⟩, ⟨.symbol .openParen, 1⟩,
      ⟨.name "a", 2⟩, ⟨.symbol .closeParen, 3⟩, ⟨.symbol .closeParen, 4⟩] := by
    decide +kernel
  obtain ⟨hlower, hnever⟩ := limit_only_refuses "((a))"
  refine ⟨hlower 1 6 (by decide), hnever _ 6 htokens (by decide), ?_⟩
  decide +kernel

end Formula
