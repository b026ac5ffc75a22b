import Formula.Expr.Basic
import Formula.Parser.Grammar

set_option autoImplicit false

/-! # The reference grammar

What a formula is, said without the parser. A `Derivation` is a tree of the grammar over the kinds
of the tokens: it derives a phrase from the front of its input and leaves the rest. The stars of the
grammar may stop anywhere, so a derivation alone does not say that it took as much as it could; only
where a rule looks at the token behind it is that part of the rule.

    expression ::= chain 0 | chain 0 '?' expression ':' expression
    chain l    ::= chain (l + 1) (operator l  chain (l + 1))*          for the levels below 10
    chain 10   ::= unary
    unary      ::= ('-' | '!' | '+' | '~') unary | '(' type ')' unary | primary suffix*
    primary    ::= number | string | character | true | false | null | dotted
                 | dotted '(' arguments ')' | '(' expression ')'
    suffix     ::= '(' arguments ')' | '[' arguments ']' | '.' name
    arguments  ::= empty | expression (',' expression)*
    dotted     ::= name ('.' name)*
    type       ::= dotted ['?'] ('[' ']')*

The first name of a dotted name is no keyword. -/

namespace Formula.Grammar

open Token (Kind)

/-! ## Names and types -/

/-- Names, each behind a dot: what is taken and what is left. -/
inductive Members : List Kind → List String → List Kind → Prop where
  | done (rest : List Kind) : Members rest [] rest
  | more {input rest : List Kind} {names : List String} (name : String)
      (others : Members input names rest) :
      Members (.symbol .dot :: .name name :: input) (name :: names) rest

/-- Any number of `[]`. -/
inductive Brackets : List Kind → List Kind → Prop where
  | done (rest : List Kind) : Brackets rest rest
  | more {input rest : List Kind} (others : Brackets input rest) :
      Brackets (.symbol .openBracket :: .symbol .closeBracket :: input) rest

/-- An optional `?`. -/
inductive Question : List Kind → List Kind → Prop where
  | absent (rest : List Kind) : Question rest rest
  | present (rest : List Kind) : Question (.symbol .question :: rest) rest

/-- A type in parentheses in front of an operand, which is what is left. A sign starts the operand
    only behind a predefined type with a name of one part. -/
inductive Conversion : List Kind → List Kind → Prop where
  | intro {input afterName afterMark operand : List Kind} {name : String} {members : List String}
      {first : Kind} (word : isKeyword name = false) (dotted : Members input members afterName)
      (mark : Question afterName afterMark)
      (brackets : Brackets afterMark (.symbol .closeParen :: first :: operand))
      (starts : first.startsOperand = true ∨
        first.isSign = true ∧ members = [] ∧ name ∈ predefinedTypes) :
      Conversion (.symbol .openParen :: .name name :: input) (first :: operand)

theorem Conversion.head?_eq {input operand : List Kind} (h : Conversion input operand) :
    input.head? = some (.symbol .openParen) := by
  cases h
  rfl

/-- Whether a dot and a name come next. -/
def startsMember : List Kind → Bool
  | .symbol .dot :: .name _ :: _ => true
  | _ => false

/-! ## Expressions -/

/-- What the grammar derives, with what it means. `links` are the further operands of a chain whose
    left part is given, `suffixes` what follows a primary expression, and `items` a list of
    arguments that is not empty; `arguments` and `items` take the closing symbol too. -/
inductive Phrase where
  | expression (e : Expr)
  | chain (level : Nat) (e : Expr)
  | links (level : Nat) (left e : Expr)
  | unary (e : Expr)
  | primary (e : Expr)
  | suffixes (operand e : Expr)
  | arguments (close : Symbol) (es : List Expr)
  | items (close : Symbol) (es : List Expr)

/-- The derivations of a phrase from the front of an input, by what they leave. -/
inductive Derivation : Phrase → List Kind → List Kind → Type where
  -- expressions
  | plain {e : Expr} {input rest : List Kind} (condition : Derivation (.chain 0 e) input rest) :
      Derivation (.expression e) input rest
  | conditional {c t f : Expr} {input afterMark afterColon rest : List Kind}
      (condition : Derivation (.chain 0 c) input (.symbol .question :: afterMark))
      (ifTrue : Derivation (.expression t) afterMark (.symbol .colon :: afterColon))
      (ifFalse : Derivation (.expression f) afterColon rest) :
      Derivation (.expression (.conditional c t f)) input rest
  -- chains of binary operators
  | chain {level : Nat} {left e : Expr} {input middle rest : List Kind} (inner : level < levelCount)
      (first : Derivation (.chain (level + 1) left) input middle)
      (others : Derivation (.links level left e) middle rest) :
      Derivation (.chain level e) input rest
  | operand {e : Expr} {input rest : List Kind} (unary : Derivation (.unary e) input rest) :
      Derivation (.chain levelCount e) input rest
  | last (level : Nat) (e : Expr) (rest : List Kind) : Derivation (.links level e e) rest rest
  | link {level : Nat} {left right e : Expr} {input middle rest : List Kind} (operator : Symbol)
      (binds : operator.level? = some level)
      (next : Derivation (.chain (level + 1) right) input middle)
      (others : Derivation (.links level (.binary operator.text left right) e) middle rest) :
      Derivation (.links level left e) (.symbol operator :: input) rest
  -- unary operators and conversions
  | prefixed {e : Expr} {input rest : List Kind} (operator : Symbol)
      (sign : operator ∈ [.minus, .bang, .plus, .tilde])
      (operand : Derivation (.unary e) input rest) :
      Derivation (.unary (.unary operator.text e)) (.symbol operator :: input) rest
  | conversion {e : Expr} {input operand rest : List Kind} (type : Conversion input operand)
      (converted : Derivation (.unary e) operand rest) :
      Derivation (.unary (.unsupported Construct.typeConversion.explanation)) input rest
  | value {base e : Expr} {input middle rest : List Kind}
      (unconverted : ∀ operand, ¬ Conversion input operand)
      (primary : Derivation (.primary base) input middle)
      (suffixes : Derivation (.suffixes base e) middle rest) :
      Derivation (.unary e) input rest
  -- primary expressions
  | number (value : Decimal) (rest : List Kind) :
      Derivation (.primary (.constant (.number value))) (.number value :: rest) rest
  | string (value : String) (rest : List Kind) :
      Derivation (.primary (.constant (.string value))) (.string value :: rest) rest
  | character (rest : List Kind) :
      Derivation (.primary (.unsupported Construct.characterLiteral.explanation))
        (.character :: rest) rest
  | trueLiteral (rest : List Kind) :
      Derivation (.primary (.constant (.boolean true))) (.name "true" :: rest) rest
  | falseLiteral (rest : List Kind) :
      Derivation (.primary (.constant (.boolean false))) (.name "false" :: rest) rest
  | nullLiteral (rest : List Kind) :
      Derivation (.primary (.unsupported Construct.nullLiteral.explanation))
        (.name "null" :: rest) rest
  | parameter {rest : List Kind} (name : String) (word : isKeyword name = false)
      (whole : startsMember rest = false) (uncalled : rest.head? ≠ some (.symbol .openParen)) :
      Derivation (.primary (.parameter name)) (.name name :: rest) rest
  | member {input rest : List Kind} {names : List String} (name : String)
      (word : isKeyword name = false) (dotted : Members input names rest) (several : names ≠ [])
      (whole : startsMember rest = false) (uncalled : rest.head? ≠ some (.symbol .openParen)) :
      Derivation (.primary (.unsupported Construct.memberAccess.explanation))
        (.name name :: input) rest
  | call {es : List Expr} {input inside rest : List Kind} {names : List String} (name : String)
      (word : isKeyword name = false)
      (dotted : Members input names (.symbol .openParen :: inside))
      (arguments : Derivation (.arguments .closeParen es) inside rest) :
      Derivation (.primary (.call (String.intercalate "." (name :: names)) es))
        (.name name :: input) rest
  | parenthesis {e : Expr} {input rest : List Kind}
      (inner : Derivation (.expression e) input (.symbol .closeParen :: rest)) :
      Derivation (.primary e) (.symbol .openParen :: input) rest
  -- suffixes
  | bare (e : Expr) (rest : List Kind) : Derivation (.suffixes e e) rest rest
  | invocation {operand e : Expr} {es : List Expr} {input middle rest : List Kind}
      (arguments : Derivation (.arguments .closeParen es) input middle)
      (others : Derivation (.suffixes (.unsupported Construct.computedInvocation.explanation) e)
        middle rest) :
      Derivation (.suffixes operand e) (.symbol .openParen :: input) rest
  | element {operand e : Expr} {es : List Expr} {input middle rest : List Kind}
      (arguments : Derivation (.arguments .closeBracket es) input middle)
      (others : Derivation (.suffixes (.unsupported Construct.elementAccess.explanation) e)
        middle rest) :
      Derivation (.suffixes operand e) (.symbol .openBracket :: input) rest
  | access {operand e : Expr} {input rest : List Kind} (name : String)
      (others : Derivation (.suffixes (.unsupported Construct.memberAccess.explanation) e)
        input rest) :
      Derivation (.suffixes operand e) (.symbol .dot :: .name name :: input) rest
  -- arguments
  | empty (close : Symbol) (rest : List Kind) :
      Derivation (.arguments close []) (.symbol close :: rest) rest
  | listed {close : Symbol} {es : List Expr} {input rest : List Kind}
      (items : Derivation (.items close es) input rest) :
      Derivation (.arguments close es) input rest
  | only {close : Symbol} {e : Expr} {input rest : List Kind}
      (item : Derivation (.expression e) input (.symbol close :: rest)) :
      Derivation (.items close [e]) input rest
  | comma {close : Symbol} {e : Expr} {es : List Expr} {input middle rest : List Kind}
      (item : Derivation (.expression e) input (.symbol .comma :: middle))
      (others : Derivation (.items close es) middle rest) :
      Derivation (.items close (e :: es)) input rest

namespace Derivation

/-! ## What a derivation opens and folds -/

variable {phrase : Phrase} {input rest : List Kind}

/-- How many levels are open at once at most. An expression, a prefix operator and a conversion open
    one until they end, and each operator of a chain opens one more until the chain ends. -/
@[simp]
def nesting {phrase : Phrase} {input rest : List Kind} : Derivation phrase input rest → Nat
  | plain d => d.nesting + 1
  | conditional c t f => max c.nesting (max t.nesting f.nesting) + 1
  | chain _ d others => max d.nesting others.nesting
  | operand d => d.nesting
  | last _ _ _ => 0
  | link _ _ d others => max d.nesting others.nesting + 1
  | prefixed _ _ d => d.nesting + 1
  | conversion _ d => d.nesting + 1
  | value _ d others => max d.nesting others.nesting
  | number _ _ | string _ _ | character _ => 0
  | trueLiteral _ | falseLiteral _ | nullLiteral _ => 0
  | parameter _ _ _ _ | member _ _ _ _ _ _ => 0
  | call _ _ _ d => d.nesting
  | parenthesis d => d.nesting
  | bare _ _ => 0
  | invocation d others => max d.nesting others.nesting
  | element d others => max d.nesting others.nesting
  | access _ others => others.nesting
  | empty _ _ => 0
  | listed d => d.nesting
  | only d => d.nesting
  | comma d others => max d.nesting others.nesting

/-- The constructs that a derivation folds, in the order in which they are complete. -/
@[simp]
def constructs {phrase : Phrase} {input rest : List Kind} :
    Derivation phrase input rest → List Construct
  | plain d => d.constructs
  | conditional c t f => c.constructs ++ (t.constructs ++ f.constructs)
  | chain _ d others => d.constructs ++ others.constructs
  | operand d => d.constructs
  | last _ _ _ => []
  | link _ _ d others => d.constructs ++ others.constructs
  | prefixed _ _ d => d.constructs
  | conversion _ d => d.constructs ++ [.typeConversion]
  | value _ d others => d.constructs ++ others.constructs
  | number _ _ | string _ _ | trueLiteral _ | falseLiteral _ => []
  | character _ => [.characterLiteral]
  | nullLiteral _ => [.nullLiteral]
  | parameter _ _ _ _ => []
  | member _ _ _ _ _ _ => [.memberAccess]
  | call _ _ _ d => d.constructs
  | parenthesis d => d.constructs
  | bare _ _ => []
  | invocation d others => d.constructs ++ .computedInvocation :: others.constructs
  | element d others => d.constructs ++ .elementAccess :: others.constructs
  | access _ others => .memberAccess :: others.constructs
  | empty _ _ => []
  | listed d => d.constructs
  | only d => d.constructs
  | comma d others => d.constructs ++ others.constructs

/-! ## Chains without operators -/

/-- A chain of a tighter level is a chain of a looser one that has no operator there. -/
def loosen {level : Nat} {e : Expr} : (k : Nat) → level + k ≤ levelCount →
    Derivation (.chain (level + k) e) input rest → Derivation (.chain level e) input rest
  | 0, _, d => d
  -- the level in between has no operator either
  | k + 1, h, d => loosen k (by omega) (.chain (by omega) d (.last _ _ _))

@[simp]
theorem nesting_loosen {level : Nat} {e : Expr} (k : Nat) (h : level + k ≤ levelCount)
    (d : Derivation (.chain (level + k) e) input rest) : (d.loosen k h).nesting = d.nesting := by
  induction k with
  | zero => rfl
  | succ k ih => simp [loosen, ih]

/-- What is derived at a level is derived, with the same nesting, at every looser one. -/
theorem exists_looser {level looser : Nat} {e : Expr} (d : Derivation (.chain level e) input rest)
    (hle : looser ≤ level) (hlevel : level ≤ levelCount) :
    ∃ d' : Derivation (.chain looser e) input rest, d'.nesting = d.nesting := by
  obtain ⟨k, rfl⟩ := Nat.exists_eq_add_of_le hle
  exact ⟨d.loosen k hlevel, d.nesting_loosen k hlevel⟩

/-- A unary expression is a chain of any level. -/
theorem exists_chain {level : Nat} {e : Expr} (d : Derivation (.unary e) input rest)
    (hlevel : level ≤ levelCount) :
    ∃ d' : Derivation (.chain level e) input rest, d'.nesting = d.nesting :=
  exists_looser (.operand d) hlevel (Nat.le_refl _)

/-- A unary expression is an expression, one level deeper. -/
theorem exists_expression {e : Expr} (d : Derivation (.unary e) input rest) :
    ∃ d' : Derivation (.expression e) input rest, d'.nesting = d.nesting + 1 := by
  obtain ⟨d', hnesting⟩ := d.exists_chain (Nat.zero_le levelCount)
  exact ⟨.plain d', congrArg (· + 1) hnesting⟩

theorem nonempty_expression {e : Expr} (d : Derivation (.unary e) input rest) :
    Nonempty (Derivation (.expression e) input rest) := by
  obtain ⟨d', -⟩ := d.exists_expression
  exact ⟨d'⟩

end Derivation

end Formula.Grammar
