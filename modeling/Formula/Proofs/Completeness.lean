import Formula.Proofs.Steps

set_option autoImplicit false

/-! # What is derived is read

The parser takes as much as it can, a derivation may stop anywhere. They agree as soon as the token
behind the phrase cannot go on with it, which is what `Ends` says; inside a derivation that is true
at every place where one phrase hands over to the next. So a derivation of a phrase that ends there
is found by the parser, whatever its budget, if the budget covers the nesting of the derivation. -/

namespace Formula

open Token (Kind)

/-! ## Where a phrase ends -/

/-- Whether a token goes on with the primary expression before it. -/
def Token.Kind.startsSuffix : Kind → Bool
  | symbol s => s == .openParen || s == .openBracket || s == .dot
  | _ => false

namespace Grammar

/-- The next token neither goes on with a primary expression nor is an operator of this
    level or of a tighter one. -/
def Stops (level : Nat) (rest : List Kind) : Prop :=
  ∀ kind ∈ rest.head?, kind.startsSuffix = false ∧
    ∀ operator bound, kind = .symbol operator → operator.level? = some bound → bound < level

/-- The next token cannot go on with the phrase. Arguments end by themselves, at
    a closing bracket. -/
def Ends : Phrase → List Kind → Prop
  | .expression _, rest => Stops 0 rest ∧ rest.head? ≠ some (.symbol .question)
  | .chain level _, rest => Stops level rest
  | .links level _ _, rest => Stops level rest
  | .unary _, rest => Stops levelCount rest
  | .suffixes _ _, rest => Stops levelCount rest
  | .primary _, _ => True
  | .arguments close _, _ => close = .closeParen ∨ close = .closeBracket
  | .items close _, _ => close = .closeParen ∨ close = .closeBracket

theorem Stops.mono {level tighter : Nat} {rest : List Kind} (h : Stops level rest)
    (hle : level ≤ tighter) : Stops tighter rest := by
  intro kind hkind
  obtain ⟨hsuffix, hlevel⟩ := h kind hkind
  exact ⟨hsuffix, fun operator bound heq hbound =>
    Nat.lt_of_lt_of_le (hlevel operator bound heq hbound) hle⟩

theorem stops_nil (level : Nat) : Stops level [] := by
  intro kind hkind
  cases hkind

/-- An operator ends everything that binds tighter. -/
theorem stops_operator {operator : Symbol} {level : Nat} (binds : operator.level? = some level)
    (rest : List Kind) : Stops (level + 1) (.symbol operator :: rest) := by
  intro kind hkind
  obtain rfl : Kind.symbol operator = kind := by simpa using hkind
  refine ⟨?_, fun other bound heq hbound => ?_⟩
  · cases operator <;> first | rfl | cases binds
  · cases heq
    rw [binds] at hbound
    cases hbound
    exact Nat.lt_succ_self _

theorem level_lt {operator : Symbol} {level : Nat} (binds : operator.level? = some level) :
    level < levelCount := by
  cases operator <;> cases binds <;> decide

/-- An operator ends every operand. -/
theorem stops_binary {operator : Symbol} {level : Nat} (binds : operator.level? = some level)
    (rest : List Kind) : Stops levelCount (.symbol operator :: rest) :=
  (stops_operator binds rest).mono (level_lt binds)

/-- Two operands with an operator between them are an expression, in which the operator deepens the
    operand behind it. -/
theorem Derivation.exists_binary {operator : Symbol} {level : Nat}
    (binds : operator.level? = some level) {left right : Expr} {input middle rest : List Kind}
    (first : Derivation (.unary left) input (.symbol operator :: middle))
    (next : Derivation (.unary right) middle rest) :
    ∃ d : Derivation (.expression (.binary operator.text left right)) input rest,
      d.nesting = max first.nesting (next.nesting + 1) + 1 := by
  have hlevel := level_lt binds
  have htighter : level + 1 ≤ levelCount := hlevel
  obtain ⟨first', hfirst⟩ := first.exists_chain htighter
  obtain ⟨next', hnext⟩ := next.exists_chain htighter
  let chain : Derivation (.chain level (.binary operator.text left right)) input rest :=
    .chain hlevel first' (.link operator binds next' (.last _ _ _))
  obtain ⟨chain', hchain⟩ := chain.exists_looser (Nat.zero_le level) (Nat.le_of_lt hlevel)
  exact ⟨.plain chain', by simp [hchain, chain, hfirst, hnext]⟩

theorem Derivation.nonempty_binary {operator : Symbol} {level : Nat}
    (binds : operator.level? = some level) {left right : Expr} {input middle rest : List Kind}
    (first : Derivation (.unary left) input (.symbol operator :: middle))
    (next : Derivation (.unary right) middle rest) :
    Nonempty (Derivation (.expression (.binary operator.text left right)) input rest) := by
  obtain ⟨d, -⟩ := first.exists_binary binds next
  exact ⟨d⟩

/-- Punctuation that is neither an operator nor the start of a suffix ends everything. -/
theorem stops_symbol {mark : Symbol} (rest : List Kind) (level : Nat)
    (hsuffix : (Kind.symbol mark).startsSuffix = false) (hlevel : mark.level? = none) :
    Stops level (.symbol mark :: rest) := by
  intro kind hkind
  obtain rfl : Kind.symbol mark = kind := by simpa using hkind
  refine ⟨hsuffix, fun other bound heq hbound => ?_⟩
  cases heq
  rw [hlevel] at hbound
  cases hbound

/-- No member follows where no suffix starts. -/
theorem Stops.startsMember {level : Nat} {rest : List Kind} (h : Stops level rest) :
    startsMember rest = false := by
  unfold Grammar.startsMember
  split
  · obtain ⟨hsuffix, -⟩ := h _ rfl
    cases hsuffix
  · rfl

/-- No arguments follow where no suffix starts. -/
theorem Stops.uncalled {level : Nat} {rest : List Kind} (h : Stops level rest) :
    rest.head? ≠ some (.symbol .openParen) := by
  intro heq
  obtain ⟨hsuffix, -⟩ := h _ heq
  cases hsuffix

/-- A name as an operand by itself. -/
theorem exists_leaf {name : String} (word : isKeyword name = false) {level : Nat} {rest : List Kind}
    (h : Stops level rest) :
    ∃ d : Derivation (.unary (.parameter name)) (.name name :: rest) rest, d.nesting = 0 := by
  have hunconverted : ∀ operand, ¬ Conversion (.name name :: rest) operand := by
    intro operand htype
    exact absurd htype.head?_eq (by simp)
  exact ⟨.value hunconverted (.parameter name word h.startsMember h.uncalled) (.bare _ _),
    Nat.max_zero _⟩

theorem ends_expression {mark : Symbol} (e : Expr) (rest : List Kind)
    (hmark : mark ∈ [.colon, .comma, .closeParen, .closeBracket]) :
    Ends (.expression e) (.symbol mark :: rest) := by
  have hsuffix : (Kind.symbol mark).startsSuffix = false := by revert mark; decide
  have hlevel : mark.level? = none := by revert mark; decide
  have hquestion : mark ≠ .question := by revert mark; decide
  exact ⟨stops_symbol rest 0 hsuffix hlevel, by simpa using hquestion⟩

/-- Where the operators of a level go on, the operand before them has ended. -/
theorem Derivation.stops_links {level : Nat} {left e : Expr} {input rest : List Kind}
    (d : Derivation (.links level left e) input rest) (h : Stops level rest) :
    Stops (level + 1) input := by
  cases d with
  | last => exact h.mono (Nat.le_succ _)
  | link operator binds _ _ => exact stops_operator binds _

/-- Every phrase that stands for an operand has a first token, which starts an operand. -/
def Opens : Phrase → List Kind → Prop
  | .links _ _ _, _ => True
  | .suffixes _ _, _ => True
  | .arguments _ _, _ => True
  | _, input => ∃ first tail, input = first :: tail ∧ (first.startsOperand || first.isSign) = true

theorem Derivation.opens {phrase : Phrase} {input rest : List Kind}
    (d : Derivation phrase input rest) :
    Opens phrase input := by
  induction d with
  | plain _ ih => exact ih
  | conditional _ _ _ ih => exact ih
  | chain _ _ _ ih => exact ih
  | operand _ ih => exact ih
  | last => trivial
  | link => trivial
  | prefixed operator sign =>
    refine ⟨_, _, rfl, ?_⟩
    revert operator
    decide
  | conversion type => cases type with | intro => exact ⟨_, _, rfl, rfl⟩
  | value _ _ _ ih => exact ih
  | number => exact ⟨_, _, rfl, rfl⟩
  | string => exact ⟨_, _, rfl, rfl⟩
  | character => exact ⟨_, _, rfl, rfl⟩
  | trueLiteral => exact ⟨_, _, rfl, rfl⟩
  | falseLiteral => exact ⟨_, _, rfl, rfl⟩
  | nullLiteral => exact ⟨_, _, rfl, rfl⟩
  | parameter => exact ⟨_, _, rfl, rfl⟩
  | member => exact ⟨_, _, rfl, rfl⟩
  | call => exact ⟨_, _, rfl, rfl⟩
  | parenthesis => exact ⟨_, _, rfl, rfl⟩
  | bare => trivial
  | invocation => trivial
  | element => trivial
  | access => trivial
  | empty => trivial
  | listed => trivial
  | only _ ih => exact ih
  | comma _ _ ih => exact ih

/-- A list of arguments that is not empty does not start with a closing bracket. -/
theorem Derivation.head?_ne_close {close : Symbol} {es : List Expr} {input rest : List Kind}
    (d : Derivation (.items close es) input rest)
    (hclose : close = .closeParen ∨ close = .closeBracket) :
    input.head? ≠ some (.symbol close) := by
  obtain ⟨first, tail, rfl, hfirst⟩ := d.opens
  intro heq
  obtain rfl : first = .symbol close := by simpa using heq
  rcases hclose with rfl | rfl <;> cases hfirst

theorem close_mem {close : Symbol} (h : close = .closeParen ∨ close = .closeBracket) :
    close ∈ [.colon, .comma, .closeParen, .closeBracket] := by
  rcases h with rfl | rfl <;> decide

/-! ## Lengths -/

theorem Members.length_le {input rest : List Kind} {names : List String}
    (h : Members input names rest) : rest.length ≤ input.length := by
  induction h with
  | done => exact Nat.le_refl _
  | more name others ih => simp only [List.length_cons]; omega

theorem Question.length_le {input rest : List Kind} (h : Question input rest) :
    rest.length ≤ input.length := by
  cases h <;> simp

theorem Brackets.length_le {input rest : List Kind} (h : Brackets input rest) :
    rest.length ≤ input.length := by
  induction h with
  | done => exact Nat.le_refl _
  | more others ih => simp only [List.length_cons]; omega

theorem Conversion.length_lt {input operand : List Kind} (h : Conversion input operand) :
    operand.length < input.length := by
  cases h with
  | intro word dotted mark brackets starts =>
    have hdotted := dotted.length_le
    have hmark := mark.length_le
    have hbrackets := brackets.length_le
    simp only [List.length_cons] at *
    omega

/-- The tokens that a phrase takes at least, beyond its nesting. -/
def Phrase.least : Phrase → Nat
  | .chain _ _ | .unary _ | .primary _ | .arguments _ _ | .items _ _ => 1
  | .expression _ | .links _ _ _ | .suffixes _ _ => 0

/-- A derivation does not nest deeper than the number of its tokens. -/
theorem Derivation.nesting_add_length_le {phrase : Phrase} {input rest : List Kind}
    (d : Derivation phrase input rest) : d.nesting + phrase.least + rest.length ≤ input.length := by
  induction d with
  | conversion type _ ih =>
    have := type.length_lt
    simp only [nesting, Phrase.least] at *
    omega
  | member _ _ dotted =>
    have := dotted.length_le
    simp only [nesting, Phrase.least, List.length_cons] at *
    omega
  | call _ _ dotted _ ih =>
    have := dotted.length_le
    simp only [nesting, Phrase.least, List.length_cons] at *
    omega
  | _ =>
    simp only [nesting, Phrase.least, List.length_cons] at *
    omega

theorem Derivation.length_le {phrase : Phrase} {input rest : List Kind}
    (d : Derivation phrase input rest) : rest.length ≤ input.length := by
  have := d.nesting_add_length_le
  omega

end Grammar

open Grammar

/-! ## Tokens of given kinds -/

theorem cons_of_kinds {tokens : List Token} {kind : Kind} {kinds : List Kind}
    (h : tokens.map Token.kind = kind :: kinds) :
    ∃ start tail, tokens = ⟨kind, start⟩ :: tail ∧ tail.map Token.kind = kinds := by
  match tokens, h with
  | ⟨_, start⟩ :: tail, h =>
    simp only [List.map_cons, List.cons.injEq] at h
    obtain ⟨rfl, rfl⟩ := h
    exact ⟨start, tail, rfl, rfl⟩

theorem exists_lower {n budget : Nat} (h : n + 1 ≤ budget) :
    ∃ lower, budget = lower + 1 ∧ n ≤ lower :=
  ⟨budget - 1, by omega, by omega⟩

theorem head?_of_kinds {tokens : List Token} {kinds : List Kind}
    (h : tokens.map Token.kind = kinds) : tokens.head?.map Token.kind = kinds.head? := by
  rw [← h, List.head?_map]

theorem drop_one_of_kinds {tokens : List Token} {kind : Kind} {kinds : List Kind}
    (h : tokens.map Token.kind = kind :: kinds) : (tokens.drop 1).map Token.kind = kinds := by
  obtain ⟨start, tail, rfl, rfl⟩ := cons_of_kinds h
  rfl

theorem operatorAt?_eq_none {kind : Kind} {rest : List Kind} {level : Nat}
    (h : Stops level (kind :: rest)) : kind.operatorAt? level = none := by
  obtain ⟨-, hlevel⟩ := h kind (by simp)
  cases hop : kind.operatorAt? level with
  | none => rfl
  | some operator =>
    cases kind with
    | symbol symbol =>
      simp only [Kind.operatorAt?, Option.ite_none_right_eq_some] at hop
      exact absurd (hlevel symbol level rfl hop.1) (Nat.lt_irrefl _)
    | _ => cases hop

namespace Parser

/-! ## Runs on tokens of given kinds -/

/-- On tokens of these kinds the parser reads `a`, leaves tokens of the kinds `rest` and folds these
    constructs. -/
def Accepts {α : Type} (p : Parser α) (kinds : List Kind) (constructs : List Construct) (a : α)
    (rest : List Kind) : Prop :=
  ∀ (setting : Setting) ⦃tokens : List Token⦄, tokens.map Token.kind = kinds →
    ∃ folds left, p.Reads setting tokens folds a left ∧ left.map Token.kind = rest ∧
      folds.map Fold.construct = constructs

/-- The parser for a phrase accepts it. What bounds the suffixes or the commas in the parser is at
    least the number of tokens. -/
def Accepted (budget : Nat) (phrase : Phrase) (input rest : List Kind)
    (constructs : List Construct) : Prop :=
  match phrase with
  | .expression e => (expression budget).Accepts input constructs e rest
  | .chain level e => (binary level budget).Accepts input constructs e rest
  | .links level left e => (chain level budget left).Accepts input constructs e rest
  | .unary e => (unary budget).Accepts input constructs e rest
  | .primary e => (primary (expression budget)).Accepts input constructs e rest
  | .suffixes operand e => ∀ count, input.length ≤ count →
      (suffixes (expression budget) count operand).Accepts input constructs e rest
  | .arguments close es => (arguments (expression budget) close).Accepts input constructs es rest
  | .items close es => ∀ commas, input.length ≤ commas →
      (argumentsFrom (expression budget) close commas).Accepts input constructs es rest

variable {budget : Nat} {input middle rest : List Kind} {before after : List Construct}

/-! ## Arguments and primary expressions -/

section Item

variable {item : Parser Expr} {close : Symbol} {e : Expr} {es : List Expr}

theorem accepts_argumentsFrom_only {commas : Nat}
    (hitem : item.Accepts input before e (.symbol close :: rest)) :
    (argumentsFrom item close commas).Accepts input before [e] rest := by
  intro setting tokens htokens
  obtain ⟨folds, left, hread, hleft, hfolds⟩ := hitem setting htokens
  refine ⟨folds, left.drop 1, reads_argumentsFrom.2 ⟨folds, e, left, [], hread, ?_, by simp⟩,
    drop_one_of_kinds hleft, hfolds⟩
  have hclose : left.head?.map Token.kind = some (.symbol close) := head?_of_kinds hleft
  rw [if_pos hclose]
  exact ⟨rfl, rfl, rfl⟩

theorem accepts_argumentsFrom_comma {commas : Nat} (hclose : close ≠ .comma)
    (hitem : item.Accepts input before e (.symbol .comma :: middle))
    (hothers : (argumentsFrom item close commas).Accepts middle after es rest) :
    (argumentsFrom item close (commas + 1)).Accepts input (before ++ after) (e :: es) rest := by
  intro setting tokens htokens
  obtain ⟨folds, between, hread, hbetween, hfolds⟩ := hitem setting htokens
  obtain ⟨later, left, hlater, hleft, hlaterFolds⟩ := hothers setting (drop_one_of_kinds hbetween)
  refine ⟨folds ++ later, left,
    reads_argumentsFrom.2 ⟨folds, e, between, later, hread, ?_, rfl⟩, hleft,
    by simp [hfolds, hlaterFolds]⟩
  have hcomma : between.head?.map Token.kind = some (.symbol .comma) := head?_of_kinds hbetween
  rw [if_neg (by rw [hcomma]; simpa using hclose.symm)]
  exact ⟨commas, rfl, hcomma, es, hlater, rfl⟩

theorem accepts_arguments_empty :
    (arguments item close).Accepts (.symbol close :: rest) [] [] rest := by
  intro setting tokens htokens
  have hclose : tokens.head?.map Token.kind = some (.symbol close) := head?_of_kinds htokens
  refine ⟨[], tokens.drop 1, reads_arguments.2 ?_, drop_one_of_kinds htokens, rfl⟩
  rw [if_pos hclose]
  exact ⟨rfl, rfl, rfl⟩

/-- A list of arguments that is not empty does not start with its closing symbol. -/
theorem accepts_arguments_listed (hclose : input.head? ≠ some (.symbol close))
    (hitems : ∀ commas, input.length ≤ commas →
      (argumentsFrom item close commas).Accepts input before es rest) :
    (arguments item close).Accepts input before es rest := by
  intro setting tokens htokens
  obtain ⟨folds, left, hread, hleft, hfolds⟩ :=
    hitems tokens.length (by simp [← htokens]) setting htokens
  refine ⟨folds, left, reads_arguments.2 ?_, hleft, hfolds⟩
  rwa [if_neg (by rw [head?_of_kinds htokens]; exact hclose)]

theorem accepts_primary_call {name : String} {names : List String} (word : isKeyword name = false)
    (dotted : Members input names (.symbol .openParen :: middle))
    (harguments : (arguments item .closeParen).Accepts middle before es rest) :
    (primary item).Accepts (.name name :: input) before
      (.call (String.intercalate "." (name :: names)) es) rest := by
  intro setting tokens htokens
  obtain ⟨start, tail, rfl, rfl⟩ := cons_of_kinds htokens
  obtain ⟨hnames, hbehind⟩ := memberNames_eq dotted rfl
  obtain ⟨folds, left, hread, hleft, hfolds⟩ := harguments setting
    (drop_one_of_kinds hbehind)
  refine ⟨folds, left, reads_primary_cons.2 ((reads_named word).2 ?_), hleft, hfolds⟩
  subst hnames
  have hcall : (tail.drop (2 * (memberNames tail).length)).head?.map Token.kind =
      some (.symbol .openParen) := head?_of_kinds hbehind
  dsimp only
  rw [if_pos hcall]
  exact ⟨es, hread, rfl⟩

theorem accepts_primary_parameter {name : String} (word : isKeyword name = false)
    (whole : startsMember rest = false) (uncalled : rest.head? ≠ some (.symbol .openParen)) :
    (primary item).Accepts (.name name :: rest) [] (.parameter name) rest := by
  intro setting tokens htokens
  obtain ⟨start, tail, rfl, rfl⟩ := cons_of_kinds htokens
  obtain ⟨hnames, -⟩ := memberNames_eq (.done _) whole
  rw [List.head?_map] at uncalled
  refine ⟨[], tail, reads_primary_cons.2 ((reads_named word).2 ?_), rfl, rfl⟩
  simp [hnames, uncalled]

theorem accepts_primary_member {name : String} {names : List String}
    (word : isKeyword name = false) (dotted : Members input names rest) (several : names ≠ [])
    (whole : startsMember rest = false) (uncalled : rest.head? ≠ some (.symbol .openParen)) :
    (primary item).Accepts (.name name :: input) [.memberAccess]
      (.unsupported Construct.memberAccess.explanation) rest := by
  intro setting tokens htokens
  obtain ⟨start, tail, rfl, rfl⟩ := cons_of_kinds htokens
  obtain ⟨hnames, hbehind⟩ := memberNames_eq dotted whole
  subst hnames
  rw [← head?_of_kinds hbehind] at uncalled
  refine ⟨[⟨.memberAccess, start⟩], _, reads_primary_cons.2 ((reads_named word).2 ?_), hbehind, rfl⟩
  dsimp only
  rw [if_neg uncalled, if_neg several]
  exact ⟨rfl, rfl, rfl⟩

theorem accepts_primary_parenthesis
    (hitem : item.Accepts input before e (.symbol .closeParen :: rest)) :
    (primary item).Accepts (.symbol .openParen :: input) before e rest := by
  intro setting tokens htokens
  obtain ⟨start, tail, rfl, rfl⟩ := cons_of_kinds htokens
  obtain ⟨folds, left, hread, hleft, hfolds⟩ := hitem setting rfl
  exact ⟨folds, left.drop 1,
    reads_primary_cons.2 ⟨rfl, left, hread, head?_of_kinds hleft, rfl⟩,
    drop_one_of_kinds hleft, hfolds⟩

/-! ## Suffixes -/

/-- Nothing is taken where no suffix starts. -/
theorem accepts_suffixes_bare {level count : Nat} (h : Stops level rest) :
    (suffixes item count e).Accepts rest [] e rest := by
  intro setting tokens htokens
  refine ⟨[], tokens, ?_, htokens, rfl⟩
  match tokens, count with
  | [], _ => exact reads_suffixes_nil.2 ⟨rfl, rfl, rfl⟩
  | _ :: _, 0 => exact reads_suffixes_zero.2 ⟨rfl, rfl, rfl⟩
  | ⟨kind, start⟩ :: tail, count + 1 =>
    obtain ⟨hsuffix, -⟩ := h kind (by simp [← htokens])
    rw [reads_suffixes_cons]
    split
    · cases hsuffix
    · cases hsuffix
    · cases hsuffix
    · exact ⟨rfl, rfl, rfl⟩

theorem accepts_suffixes_invocation {count : Nat} {operand : Expr}
    (harguments : (arguments item .closeParen).Accepts input before es middle)
    (hothers : (suffixes item count (.unsupported Construct.computedInvocation.explanation)).Accepts
      middle after e rest) :
    (suffixes item (count + 1) operand).Accepts (.symbol .openParen :: input)
      (before ++ .computedInvocation :: after) e rest := by
  intro setting tokens htokens
  obtain ⟨start, tail, rfl, rfl⟩ := cons_of_kinds htokens
  obtain ⟨folds, between, hread, hbetween, hfolds⟩ := harguments setting rfl
  obtain ⟨later, left, hlater, hleft, hlaterFolds⟩ := hothers setting hbetween
  exact ⟨_, left, reads_suffixes_cons.2 ⟨folds, es, between, _, hread, ⟨later, hlater, rfl⟩, rfl⟩,
    hleft, by simp [hfolds, hlaterFolds]⟩

theorem accepts_suffixes_element {count : Nat} {operand : Expr}
    (harguments : (arguments item .closeBracket).Accepts input before es middle)
    (hothers : (suffixes item count (.unsupported Construct.elementAccess.explanation)).Accepts
      middle after e rest) :
    (suffixes item (count + 1) operand).Accepts (.symbol .openBracket :: input)
      (before ++ .elementAccess :: after) e rest := by
  intro setting tokens htokens
  obtain ⟨start, tail, rfl, rfl⟩ := cons_of_kinds htokens
  obtain ⟨folds, between, hread, hbetween, hfolds⟩ := harguments setting rfl
  obtain ⟨later, left, hlater, hleft, hlaterFolds⟩ := hothers setting hbetween
  exact ⟨_, left, reads_suffixes_cons.2 ⟨folds, es, between, _, hread, ⟨later, hlater, rfl⟩, rfl⟩,
    hleft, by simp [hfolds, hlaterFolds]⟩

theorem accepts_suffixes_access {count : Nat} {operand : Expr} {name : String}
    (hothers : (suffixes item count (.unsupported Construct.memberAccess.explanation)).Accepts
      input after e rest) :
    (suffixes item (count + 1) operand).Accepts (.symbol .dot :: .name name :: input)
      (.memberAccess :: after) e rest := by
  intro setting tokens htokens
  obtain ⟨start, tail, rfl, htail⟩ := cons_of_kinds htokens
  obtain ⟨later, left, hlater, hleft, hlaterFolds⟩ :=
    hothers setting (drop_one_of_kinds htail)
  exact ⟨_, left,
    reads_suffixes_cons.2 ⟨name, head?_of_kinds htail, later, hlater, rfl⟩,
    hleft, by simp [hlaterFolds]⟩

end Item

/-! ## Chains, unary operators and expressions -/

section Levels

variable {level : Nat} {left right e : Expr}

theorem accepts_chain_last (h : Stops level rest) :
    (Parser.chain level budget e).Accepts rest [] e rest := by
  intro setting tokens htokens
  refine ⟨[], tokens, ?_, htokens, rfl⟩
  match tokens with
  | [] => exact reads_chain_nil.2 ⟨rfl, rfl, rfl⟩
  | ⟨kind, start⟩ :: tail =>
    subst htokens
    rw [reads_chain_cons, operatorAt?_eq_none h]
    exact ⟨rfl, rfl, rfl⟩

theorem accepts_chain_link {operator : Symbol} (binds : operator.level? = some level)
    (hnext : (binary (level + 1) budget).Accepts input before right middle)
    (hothers : (Parser.chain level budget (.binary operator.text left right)).Accepts middle after e
      rest) :
    (Parser.chain level (budget + 1) left).Accepts (.symbol operator :: input) (before ++ after) e
      rest := by
  intro setting tokens htokens
  obtain ⟨start, tail, rfl, rfl⟩ := cons_of_kinds htokens
  obtain ⟨folds, between, hread, hbetween, hfolds⟩ := hnext setting rfl
  obtain ⟨later, left', hlater, hleft, hlaterFolds⟩ := hothers setting hbetween
  refine ⟨folds ++ later, left', ?_, hleft, by simp [hfolds, hlaterFolds]⟩
  have hoperator : (Kind.symbol operator).operatorAt? level = some operator := by
    simp [Kind.operatorAt?, binds]
  rw [reads_chain_cons, hoperator]
  exact ⟨budget, rfl, folds, right, between, later, hread, hlater, rfl⟩

theorem accepts_binary (inner : level < levelCount)
    (hfirst : (binary (level + 1) budget).Accepts input before left middle)
    (hothers : (Parser.chain level budget left).Accepts middle after e rest) :
    (binary level budget).Accepts input (before ++ after) e rest := by
  intro setting tokens htokens
  obtain ⟨folds, between, hread, hbetween, hfolds⟩ := hfirst setting htokens
  obtain ⟨later, left', hlater, hleft, hlaterFolds⟩ := hothers setting hbetween
  exact ⟨folds ++ later, left',
    (reads_binary inner).2 ⟨folds, left, between, later, hread, hlater, rfl⟩, hleft,
    by simp [hfolds, hlaterFolds]⟩

theorem accepts_binary_last (hunary : (unary budget).Accepts input before e rest) :
    (binary levelCount budget).Accepts input before e rest := by
  intro setting tokens htokens
  obtain ⟨folds, left', hread, hleft, hfolds⟩ := hunary setting htokens
  exact ⟨folds, left', reads_binary_last.2 hread, hleft, hfolds⟩

theorem accepts_unary_prefixed {operator : Symbol}
    (sign : operator ∈ [.minus, .bang, .plus, .tilde])
    (hoperand : (unary budget).Accepts input before e rest) :
    (unary (budget + 1)).Accepts (.symbol operator :: input) before
      (.unary operator.text e) rest := by
  intro setting tokens htokens
  obtain ⟨start, tail, rfl, rfl⟩ := cons_of_kinds htokens
  obtain ⟨folds, left', hread, hleft, hfolds⟩ := hoperand setting rfl
  refine ⟨folds, left', ?_, hleft, hfolds⟩
  have hoperator : (Kind.symbol operator).unaryOperator? = some operator := by
    simp only [List.mem_cons, List.not_mem_nil, or_false] at sign
    rcases sign with rfl | rfl | rfl | rfl <;> rfl
  rw [reads_unary_cons, hoperator]
  exact ⟨budget, rfl, e, hread, rfl⟩

theorem accepts_unary_conversion {operand : List Kind} (type : Conversion input operand)
    (hconverted : (unary budget).Accepts operand before e rest) :
    (unary (budget + 1)).Accepts input (before ++ [.typeConversion])
      (.unsupported Construct.typeConversion.explanation) rest := by
  intro setting tokens htokens
  subst htokens
  obtain ⟨operand, hoperand, rfl⟩ := conversionAt?_of_conversion type
  obtain ⟨folds, left', hread, hleft, hfolds⟩ := hconverted setting rfl
  obtain ⟨start, tail, rfl⟩ : ∃ start tail, tokens = ⟨.symbol .openParen, start⟩ :: tail := by
    match tokens, hoperand with
    | ⟨.symbol .openParen, start⟩ :: tail, _ => exact ⟨start, tail, rfl⟩
  refine ⟨folds ++ [⟨.typeConversion, start⟩], left', ?_, hleft, by simp [hfolds]⟩
  rw [reads_unary_cons]
  simp only [Kind.unaryOperator?, hoperand]
  exact ⟨budget, rfl, folds, e, hread, trivial, rfl⟩

/-- A primary expression with its suffixes, where neither a prefix operator nor
    a conversion stands. -/
theorem accepts_unary_value {base : Expr} (unconverted : ∀ operand, ¬ Conversion input operand)
    (unsigned : ∀ kind ∈ input.head?, kind.unaryOperator? = none)
    (hprimary : (primary (expression budget)).Accepts input before base middle)
    (hsuffixes : ∀ count, middle.length ≤ count →
      (suffixes (expression budget) count base).Accepts middle after e rest) :
    (unary budget).Accepts input (before ++ after) e rest := by
  intro setting tokens htokens
  subst htokens
  obtain ⟨folds, between, hread, hbetween, hfolds⟩ := hprimary setting rfl
  obtain ⟨later, left', hlater, hleft, hlaterFolds⟩ :=
    hsuffixes between.length (by simp [← hbetween]) setting hbetween
  refine ⟨folds ++ later, left', ?_, hleft, by simp [hfolds, hlaterFolds]⟩
  match tokens with
  | [] => exact absurd hread not_reads_primary_nil
  | ⟨kind, start⟩ :: tail =>
    have hkind : kind.unaryOperator? = none := unsigned kind (by simp)
    rw [reads_unary_cons, hkind]
    simp only [conversionAt?_eq_none_iff.2 unconverted]
    exact ⟨folds, base, between, later, hread, hlater, rfl⟩

theorem accepts_expression_plain (hends : rest.head? ≠ some (.symbol .question))
    (hcondition : (binary 0 budget).Accepts input before e rest) :
    (expression (budget + 1)).Accepts input before e rest := by
  intro setting tokens htokens
  obtain ⟨folds, left', hread, hleft, hfolds⟩ := hcondition setting htokens
  refine ⟨folds, left',
    reads_expression_succ.2 ⟨folds, e, left', [], hread, ?_, by simp⟩, hleft, hfolds⟩
  rw [if_neg (by rw [head?_of_kinds hleft]; exact hends)]
  exact ⟨rfl, rfl, rfl⟩

theorem accepts_expression_conditional {c t f : Expr} {afterMark afterColon : List Kind}
    {first second third : List Construct}
    (hcondition : (binary 0 budget).Accepts input first c (.symbol .question :: afterMark))
    (htrue : (expression budget).Accepts afterMark second t (.symbol .colon :: afterColon))
    (hfalse : (expression budget).Accepts afterColon third f rest) :
    (expression (budget + 1)).Accepts input (first ++ (second ++ third))
      (.conditional c t f) rest := by
  intro setting tokens htokens
  obtain ⟨folds₁, left₁, hread₁, hleft₁, hfolds₁⟩ := hcondition setting htokens
  obtain ⟨folds₂, left₂, hread₂, hleft₂, hfolds₂⟩ :=
    htrue setting (drop_one_of_kinds hleft₁)
  obtain ⟨folds₃, left₃, hread₃, hleft₃, hfolds₃⟩ :=
    hfalse setting (drop_one_of_kinds hleft₂)
  refine ⟨folds₁ ++ (folds₂ ++ folds₃), left₃,
    reads_expression_succ.2 ⟨folds₁, c, left₁, folds₂ ++ folds₃, hread₁, ?_, rfl⟩, hleft₃,
    by simp [hfolds₁, hfolds₂, hfolds₃]⟩
  have hmark : left₁.head?.map Token.kind = some (.symbol .question) := head?_of_kinds hleft₁
  rw [if_pos hmark]
  exact ⟨folds₂, t, left₂, folds₃, hread₂, ⟨head?_of_kinds hleft₂, f, hread₃, rfl⟩, rfl⟩

end Levels

/-! ## Derivations -/

/-- No prefix operator starts a primary expression. -/
theorem unaryOperator?_eq_none_of_primary {e : Expr} (d : Derivation (.primary e) input rest) :
    ∀ kind ∈ input.head?, kind.unaryOperator? = none := by
  intro kind hkind
  cases d <;> cases hkind <;> rfl

/-- What is derived up to its end is read, under every budget that covers the nesting. -/
theorem accepted_of_derivation {phrase : Phrase} (d : Derivation phrase input rest)
    (ends : Ends phrase rest) (hbudget : d.nesting ≤ budget) :
    Accepted budget phrase input rest d.constructs := by
  -- over every budget, as a phrase that opens a level passes a smaller one on
  induction d generalizing budget with
  | plain d ih =>
    obtain ⟨budget, rfl, hlower⟩ := exists_lower hbudget
    exact accepts_expression_plain ends.2 (ih ends.1 hlower)
  | conditional c t f ihc iht ihf =>
    obtain ⟨budget, rfl, hlower⟩ := exists_lower hbudget
    obtain ⟨hcondition, hbranches⟩ := Nat.max_le.1 hlower
    obtain ⟨htrue, hfalse⟩ := Nat.max_le.1 hbranches
    exact accepts_expression_conditional (ihc (stops_symbol _ _ rfl rfl) hcondition)
      (iht (ends_expression _ _ (by decide)) htrue) (ihf ends hfalse)
  | chain inner first others ihfirst ihothers =>
    obtain ⟨hfirst, hothers⟩ := Nat.max_le.1 hbudget
    exact accepts_binary inner (ihfirst (others.stops_links ends) hfirst) (ihothers ends hothers)
  | operand d ih => exact accepts_binary_last (ih ends hbudget)
  | last => exact accepts_chain_last ends
  | link operator binds next others ihnext ihothers =>
    obtain ⟨budget, rfl, hlower⟩ := exists_lower hbudget
    obtain ⟨hnext, hothers⟩ := Nat.max_le.1 hlower
    exact accepts_chain_link binds (ihnext (others.stops_links ends) hnext) (ihothers ends hothers)
  | prefixed operator sign d ih =>
    obtain ⟨budget, rfl, hlower⟩ := exists_lower hbudget
    exact accepts_unary_prefixed sign (ih ends hlower)
  | conversion type d ih =>
    obtain ⟨budget, rfl, hlower⟩ := exists_lower hbudget
    exact accepts_unary_conversion type (ih ends hlower)
  | value unconverted primary suffixes ihprimary ihsuffixes =>
    obtain ⟨hprimary, hsuffixes⟩ := Nat.max_le.1 hbudget
    exact accepts_unary_value unconverted (unaryOperator?_eq_none_of_primary primary)
      (ihprimary trivial hprimary) (ihsuffixes ends hsuffixes)
  | number | string =>
    intro setting tokens htokens
    obtain ⟨start, tail, rfl, rfl⟩ := cons_of_kinds htokens
    exact ⟨[], tail, reads_primary_cons.2 ⟨rfl, rfl, rfl⟩, rfl, rfl⟩
  | character =>
    intro setting tokens htokens
    obtain ⟨start, tail, rfl, rfl⟩ := cons_of_kinds htokens
    exact ⟨[⟨.characterLiteral, start⟩], tail, reads_primary_cons.2 ⟨rfl, rfl, rfl⟩, rfl, rfl⟩
  | trueLiteral =>
    intro setting tokens htokens
    obtain ⟨start, tail, rfl, rfl⟩ := cons_of_kinds htokens
    exact ⟨[], tail, reads_primary_cons.2 (reads_named_true.2 ⟨rfl, rfl, rfl⟩), rfl, rfl⟩
  | falseLiteral =>
    intro setting tokens htokens
    obtain ⟨start, tail, rfl, rfl⟩ := cons_of_kinds htokens
    exact ⟨[], tail, reads_primary_cons.2 (reads_named_false.2 ⟨rfl, rfl, rfl⟩), rfl, rfl⟩
  | nullLiteral =>
    intro setting tokens htokens
    obtain ⟨start, tail, rfl, rfl⟩ := cons_of_kinds htokens
    exact ⟨[⟨.nullLiteral, start⟩], tail, reads_primary_cons.2 (reads_named_null.2 ⟨rfl, rfl, rfl⟩),
      rfl, rfl⟩
  | parameter name word whole uncalled => exact accepts_primary_parameter word whole uncalled
  | member name word dotted several whole uncalled =>
    exact accepts_primary_member word dotted several whole uncalled
  | call name word dotted d ih => exact accepts_primary_call word dotted (ih (.inl rfl) hbudget)
  | parenthesis d ih =>
    exact accepts_primary_parenthesis (ih (ends_expression _ _ (by decide)) hbudget)
  | bare => exact fun count _ => accepts_suffixes_bare ends
  | invocation d others ih ihothers =>
    obtain ⟨hd, hothers⟩ := Nat.max_le.1 hbudget
    intro count hcount
    obtain ⟨count, rfl, hlower⟩ := exists_lower hcount
    exact accepts_suffixes_invocation (ih (.inl rfl) hd)
      (ihothers ends hothers count (Nat.le_trans d.length_le hlower))
  | element d others ih ihothers =>
    obtain ⟨hd, hothers⟩ := Nat.max_le.1 hbudget
    intro count hcount
    obtain ⟨count, rfl, hlower⟩ := exists_lower hcount
    exact accepts_suffixes_element (ih (.inr rfl) hd)
      (ihothers ends hothers count (Nat.le_trans d.length_le hlower))
  | access name others ih =>
    intro count hcount
    obtain ⟨count, rfl, hlower⟩ := exists_lower hcount
    exact accepts_suffixes_access (ih ends hbudget count (Nat.le_of_succ_le hlower))
  | empty => exact accepts_arguments_empty
  | listed d ih => exact accepts_arguments_listed (d.head?_ne_close ends) (ih ends hbudget)
  | only d ih =>
    exact fun commas _ =>
      accepts_argumentsFrom_only (ih (ends_expression _ _ (close_mem ends)) hbudget)
  | comma d others ih ihothers =>
    obtain ⟨hd, hothers⟩ := Nat.max_le.1 hbudget
    intro commas hcommas
    have hlength := d.length_le
    obtain ⟨commas, rfl, hlower⟩ := exists_lower (Nat.le_trans hlength hcommas)
    exact accepts_argumentsFrom_comma (by rcases ends with rfl | rfl <;> decide)
      (ih (ends_expression _ _ (by decide)) hd) (ihothers ends hothers commas hlower)

end Parser

end Formula
