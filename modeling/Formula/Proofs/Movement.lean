import Formula.Parse
import Formula.Proofs.Steps

set_option autoImplicit false

/-! # Moved tokens

A parser looks at what its tokens say and never at where they stand: positions only go into the
errors and the records of what is folded. So a parser that is given the same tokens at other places
answers the same, with the places in its answer moved likewise. -/

namespace Formula

/-! ## Moving what has a place -/

section Move

variable (place : Nat → Nat)

/-- The same token at another place. -/
def Token.move (token : Token) : Token := { token with position := place token.position }

/-- The same fold at another place. -/
def Fold.move (fold : Fold) : Fold := { fold with position := place fold.position }

/-- The same error at another place. -/
def ParseError.move (error : ParseError) : ParseError :=
  { error with position := place error.position }

/-- The same setting with the end of the text at another place. -/
def Setting.move (setting : Setting) : Setting := { setting with stop := place setting.stop }

/-- The same answer with everything at another place. -/
def Reply.move {α : Type} (reply : Reply α) : Reply α where
  folds := reply.folds.map (Fold.move place)
  result := match reply.result with
    | .error e => .error (e.move place)
    | .ok (a, rest) => .ok (a, rest.map (Token.move place))

end Move

variable {place : Nat → Nat}

theorem Token.map_move_eq_self {tokens : List Token}
    (h : ∀ token ∈ tokens, place token.position = token.position) :
    tokens.map (Token.move place) = tokens := by
  refine (List.map_congr_left fun token htoken => ?_).trans (List.map_id' tokens)
  rw [Token.move, h token htoken]

theorem head?_kind_move (tokens : List Token) :
    (tokens.map (Token.move place)).head?.map Token.kind = tokens.head?.map Token.kind := by
  cases tokens <;> rfl

theorem position_move (tokens : List Token) (setting : Setting) :
    ((tokens.map (Token.move place)).head?.map Token.position).getD (setting.move place).stop =
      place ((tokens.head?.map Token.position).getD setting.stop) := by
  cases tokens <;> rfl

/-- Tokens that start with a certain one when they are moved start with it where they are. -/
theorem exists_unmoved {tokens rest : List Token} {kind : Token.Kind} {p : Nat}
    (h : tokens.map (Token.move place) = ⟨kind, p⟩ :: rest) :
    ∃ q behind, tokens = ⟨kind, q⟩ :: behind ∧ behind.map (Token.move place) = rest := by
  obtain ⟨⟨found, q⟩, behind, rfl, hfirst, hrest⟩ := List.map_eq_cons_iff.1 h
  obtain rfl : found = kind := congrArg Token.kind hfirst
  exact ⟨q, behind, rfl, hrest⟩

/-! ## Names and types -/

theorem memberNames_move (tokens : List Token) :
    memberNames (tokens.map (Token.move place)) = memberNames tokens := by
  fun_induction memberNames tokens with
  | case1 dotted name named rest ih => simpa [memberNames, Token.move] using ih
  | case2 tokens hother =>
    rw [memberNames]
    rintro dotted name named rest heq
    obtain ⟨p, behind, rfl, hbehind⟩ := exists_unmoved heq
    obtain ⟨q, others, rfl, -⟩ := exists_unmoved hbehind
    exact hother p name q others rfl

theorem dropQuestion_move (tokens : List Token) :
    dropQuestion (tokens.map (Token.move place)) =
      (dropQuestion tokens).map (Token.move place) := by
  match tokens with
  | [] => rfl
  | ⟨kind, p⟩ :: rest =>
    by_cases hquestion : kind = .symbol .question
    · subst hquestion
      rfl
    · simp [dropQuestion, Token.move, hquestion]

theorem dropBrackets_move (tokens : List Token) :
    dropBrackets (tokens.map (Token.move place)) =
      (dropBrackets tokens).map (Token.move place) := by
  fun_induction dropBrackets tokens with
  | case1 opened closed rest ih => simpa [dropBrackets, Token.move] using ih
  | case2 tokens hother =>
    rw [dropBrackets]
    rintro opened closed rest heq
    obtain ⟨p, behind, rfl, hbehind⟩ := exists_unmoved heq
    obtain ⟨q, others, rfl, -⟩ := exists_unmoved hbehind
    exact hother p q others rfl

theorem conversionOperand?_move (tokens : List Token) :
    conversionOperand? (tokens.map (Token.move place)) =
      (conversionOperand? tokens).map (List.map (Token.move place)) := by
  match tokens with
  | [] => rfl
  | ⟨kind, p⟩ :: rest =>
    cases kind with
    | name name =>
      simp only [List.map_cons, Token.move, conversionOperand?]
      rw [memberNames_move, ← List.map_drop, dropQuestion_move, dropBrackets_move]
      -- what stands behind the type has the same kinds
      match dropBrackets (dropQuestion (rest.drop (2 * (memberNames rest).length))) with
      | [] => rfl
      | ⟨kind, q⟩ :: operand =>
        by_cases hclose : kind = .symbol .closeParen
        · subst hclose
          simp only [List.map_cons, Token.move, List.head?_map, Option.any_map]
          split <;> rfl
        · simp [Token.move, hclose]
    | _ => rfl

theorem conversionAt?_move (tokens : List Token) :
    conversionAt? (tokens.map (Token.move place)) =
      (conversionAt? tokens).map (List.map (Token.move place)) := by
  match tokens with
  | [] => rfl
  | ⟨kind, p⟩ :: rest =>
    by_cases hopen : kind = .symbol .openParen
    · subst hopen
      exact conversionOperand?_move rest
    · simp [conversionAt?, Token.move, hopen]

namespace Parser

/-! ## Combinators -/

variable {α β : Type}

/-- `p` carries over to `q`: on moved tokens `q` answers as `p` does on the tokens, but moved. -/
def Carries (place : Nat → Nat) (p q : Parser α) : Prop :=
  ∀ setting tokens, q (setting.move place) (tokens.map (Token.move place)) =
    (p setting tokens).move place

theorem carries_bind {p q : Parser α} {f g : α → Parser β} (hp : Carries place p q)
    (hf : ∀ a, Carries place (f a) (g a)) : Carries place (p >>= f) (q >>= g) := by
  intro setting tokens
  show Parser.bind q g (setting.move place) (tokens.map (Token.move place)) =
    (Parser.bind p f setting tokens).move place
  unfold Parser.bind
  rw [hp setting tokens]
  rcases p setting tokens with ⟨folds, error | ⟨a, rest⟩⟩
  · rfl
  · simp only [Reply.move, hf a setting rest, List.map_append]

theorem carries_pure (a : α) : Carries place (pure a) (pure a) := fun _ _ => rfl

/-- What is done with the position of the next token may depend on it, if that moves with it. -/
theorem carries_position_bind {f g : Nat → Parser β}
    (hf : ∀ start, Carries place (f start) (g (place start))) :
    Carries place (position >>= f) (position >>= g) := by
  intro setting tokens
  show g _ (setting.move place) (tokens.map (Token.move place)) = (f _ setting tokens).move place
  rw [position_move]
  exact hf _ setting tokens

theorem carries_tokens_bind {f g : List Token → Parser β}
    (hf : ∀ tokens, Carries place (f tokens) (g (tokens.map (Token.move place)))) :
    Carries place (tokens >>= f) (tokens >>= g) :=
  fun setting tokens => hf tokens setting tokens

theorem carries_next?_bind {f g : Option Token.Kind → Parser β}
    (hf : ∀ next, Carries place (f next) (g next)) : Carries place (next? >>= f) (next? >>= g) := by
  intro setting tokens
  show g _ (setting.move place) (tokens.map (Token.move place)) = (f _ setting tokens).move place
  rw [head?_kind_move]
  exact hf _ setting tokens

theorem carries_conversion?_bind {f g : Option (List Token) → Parser β}
    (hf : ∀ found, Carries place (f found) (g (found.map (List.map (Token.move place))))) :
    Carries place (conversion? >>= f) (conversion? >>= g) := by
  intro setting tokens
  show Parser.bind conversion? g (setting.move place) (tokens.map (Token.move place)) =
    (Parser.bind conversion? f setting tokens).move place
  unfold Parser.bind
  rw [show conversion? setting tokens = _ from reads_conversion? setting tokens,
    show conversion? (setting.move place) _ = _ from reads_conversion? _ _, conversionAt?_move]
  simp only [List.nil_append]
  exact hf _ setting tokens

theorem carries_skip (n : Nat) : Carries place (skip n) (skip n) := by
  intro setting tokens
  simp only [skip, Reply.move, List.map_drop, List.map_nil]

theorem carries_resume (rest : List Token) :
    Carries place (resume rest) (resume (rest.map (Token.move place))) :=
  fun _ _ => rfl

theorem carries_fold (construct : Construct) (start : Nat) :
    Carries place (fold construct start) (fold construct (place start)) :=
  fun _ _ => rfl

theorem carries_fail (cause : ParseError.Cause) :
    Carries place (fail cause : Parser α) (fail cause) := by
  intro setting tokens
  simp only [fail, Reply.move, position_move, ParseError.move, List.map_nil]

theorem carries_tooDeep : Carries place (tooDeep : Parser α) tooDeep :=
  fun setting tokens => carries_fail (.tooDeep setting.maxDepth) setting tokens

theorem carries_accept (symbol : Symbol) : Carries place (accept symbol) (accept symbol) := by
  unfold accept
  refine carries_next?_bind fun next => ?_
  split
  · exact carries_bind (carries_skip 1) fun _ => carries_pure true
  · exact carries_pure false

theorem carries_expect (symbol : Symbol) : Carries place (expect symbol) (expect symbol) := by
  unfold expect
  refine carries_bind (carries_accept symbol) fun found => ?_
  split
  · exact carries_pure ()
  · exact carries_next?_bind fun next => carries_fail _

/-! ## Inside one level of nesting -/

section Item

variable {item : Parser Expr} (hitem : Carries place item item)
include hitem

theorem carries_argumentsFrom (close : Symbol) (commas : Nat) :
    Carries place (argumentsFrom item close commas) (argumentsFrom item close commas) := by
  induction commas with
  | zero =>
    rw [argumentsFrom.eq_def]
    refine carries_bind hitem fun first => carries_bind (carries_accept close) fun closed => ?_
    split
    · exact carries_pure _
    · exact carries_next?_bind fun next => carries_fail _
  | succ commas ih =>
    rw [argumentsFrom.eq_def]
    refine carries_bind hitem fun first => carries_bind (carries_accept close) fun closed => ?_
    split
    · exact carries_pure _
    · refine carries_bind (carries_accept .comma) fun separated => ?_
      split
      · exact carries_bind ih fun others => carries_pure _
      · exact carries_next?_bind fun next => carries_fail _

theorem carries_arguments (close : Symbol) :
    Carries place (arguments item close) (arguments item close) := by
  unfold arguments
  refine carries_bind (carries_accept close) fun closed => ?_
  split
  · exact carries_pure _
  · refine carries_tokens_bind fun tokens => ?_
    rw [List.length_map]
    exact carries_argumentsFrom hitem close tokens.length

theorem carries_named (start : Nat) (name : String) :
    Carries place (named item start name) (named item (place start) name) := by
  unfold named
  split
  · exact carries_pure _
  · exact carries_pure _
  · exact carries_fold _ _
  · refine carries_tokens_bind fun tokens => ?_
    rw [memberNames_move]
    refine carries_bind (carries_skip _) fun _ =>
      carries_bind (carries_accept .openParen) fun called => ?_
    split
    · exact carries_bind (carries_arguments hitem .closeParen) fun es => carries_pure _
    · split
      · exact carries_pure _
      · exact carries_fold _ _

theorem carries_primary : Carries place (primary item) (primary item) := by
  unfold primary
  refine carries_position_bind fun start => carries_next?_bind fun next => ?_
  split
  · exact carries_bind (carries_skip 1) fun _ => carries_pure _
  · exact carries_bind (carries_skip 1) fun _ => carries_pure _
  · exact carries_bind (carries_skip 1) fun _ => carries_fold _ _
  · exact carries_bind (carries_skip 1) fun _ => carries_named hitem start _
  · exact carries_bind (carries_skip 1) fun _ => carries_bind hitem fun inner =>
      carries_bind (carries_expect .closeParen) fun _ => carries_pure inner
  · exact carries_fail _
  · exact carries_fail _

theorem carries_suffixes (count : Nat) (operand : Expr) :
    Carries place (suffixes item count operand) (suffixes item count operand) := by
  induction count generalizing operand with
  | zero => exact carries_pure operand
  | succ count ih =>
    rw [suffixes.eq_def]
    refine carries_position_bind fun start => carries_next?_bind fun next => ?_
    split
    · exact carries_bind (carries_skip 1) fun _ =>
        carries_bind (carries_arguments hitem .closeParen) fun _ =>
          carries_bind (carries_fold _ _) ih
    · exact carries_bind (carries_skip 1) fun _ =>
        carries_bind (carries_arguments hitem .closeBracket) fun _ =>
          carries_bind (carries_fold _ _) ih
    · refine carries_bind (carries_skip 1) fun _ => carries_next?_bind fun member => ?_
      split
      · exact carries_bind (carries_skip 1) fun _ => carries_bind (carries_fold _ _) ih
      · exact carries_fail _
    · exact carries_pure _

end Item

/-! ## The levels of the grammar -/

theorem carries_chain {level budget : Nat}
    (hright : ∀ lower, budget = lower + 1 →
      Carries place (binary (level + 1) lower) (binary (level + 1) lower))
    (hothers : ∀ lower, budget = lower + 1 → ∀ left,
      Carries place (chain level lower left) (chain level lower left)) (left : Expr) :
    Carries place (chain level budget left) (chain level budget left) := by
  rw [chain]
  refine carries_next?_bind fun next => ?_
  split
  · exact carries_pure left
  · refine carries_bind (carries_skip 1) fun _ => ?_
    cases budget with
    | zero => exact carries_tooDeep
    | succ lower => exact carries_bind (hright lower rfl) fun right => hothers lower rfl _

theorem carries_unary {budget : Nat}
    (hlower : ∀ lower, budget = lower + 1 → Carries place (unary lower) (unary lower))
    (hitem : Carries place (expression budget) (expression budget)) :
    Carries place (unary budget) (unary budget) := by
  rw [unary]
  refine carries_next?_bind fun next => ?_
  split
  · refine carries_bind (carries_skip 1) fun _ => ?_
    cases budget with
    | zero => exact carries_tooDeep
    | succ lower => exact carries_bind (hlower lower rfl) fun operand => carries_pure _
  · refine carries_position_bind fun start => carries_conversion?_bind fun found => ?_
    cases found with
    | some operand =>
      refine carries_bind (carries_resume operand) fun _ => ?_
      cases budget with
      | zero => exact carries_tooDeep
      | succ lower => exact carries_bind (hlower lower rfl) fun _ => carries_fold _ _
    | none =>
      refine carries_bind (carries_primary hitem) fun e => carries_tokens_bind fun tokens => ?_
      rw [List.length_map]
      exact carries_suffixes hitem tokens.length e

theorem carries_binary_last {budget : Nat} (hunary : Carries place (unary budget) (unary budget)) :
    Carries place (binary levelCount budget) (binary levelCount budget) := by
  rw [binary, if_neg (Nat.lt_irrefl _)]
  exact hunary

theorem carries_binary {level budget : Nat} (hlevel : level < levelCount)
    (hfirst : Carries place (binary (level + 1) budget) (binary (level + 1) budget))
    (hchain : ∀ left, Carries place (chain level budget left) (chain level budget left)) :
    Carries place (binary level budget) (binary level budget) := by
  rw [binary, if_pos hlevel]
  exact carries_bind hfirst hchain

theorem carries_expression_succ {budget : Nat}
    (hcondition : Carries place (binary 0 budget) (binary 0 budget))
    (hbranch : Carries place (expression budget) (expression budget)) :
    Carries place (expression (budget + 1)) (expression (budget + 1)) := by
  rw [expression]
  refine carries_bind hcondition fun condition =>
    carries_bind (carries_accept .question) fun found => ?_
  split
  · exact carries_bind hbranch fun ifTrue => carries_bind (carries_expect .colon) fun _ =>
      carries_bind hbranch fun ifFalse => carries_pure _
  · exact carries_pure condition

theorem carries_expression (budget : Nat) :
    Carries place (expression budget) (expression budget) := by
  have hzero : Carries place (expression 0) (expression 0) := by
    rw [expression]
    exact carries_tooDeep
  exact (levels_induction
    (E := fun budget => Carries place (expression budget) (expression budget))
    (U := fun budget => Carries place (unary budget) (unary budget))
    (C := fun level budget => ∀ left,
      Carries place (chain level budget left) (chain level budget left))
    (B := fun level budget => Carries place (binary level budget) (binary level budget))
    hzero (fun _ => carries_unary) (fun _ _ _ => carries_chain) (fun _ => carries_binary_last)
    (fun _ _ => carries_binary) (fun _ => carries_expression_succ) budget).1

theorem carries_formula (budget : Nat) : Carries place (formula budget) (formula budget) := by
  unfold formula
  refine carries_bind (carries_expression budget) fun e => carries_next?_bind fun next => ?_
  split
  · exact carries_pure e
  · exact carries_fail _
  · exact carries_fail _
  · exact carries_fail _

end Parser

end Formula
