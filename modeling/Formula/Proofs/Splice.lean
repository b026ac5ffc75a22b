import Formula.Proofs.Parenthesis
import Formula.Proofs.Substitute

set_option autoImplicit false

/-! # Putting tokens in the place of a name

If the tokens of an expression, in parentheses, take the place of a name in other tokens, what is
derived changes just where the name was a leaf of the tree. A name can stand for more than a leaf,
as a part of a type or of a dotted name, and a leaf can be lost in a construct that is folded; so
the leaves of the tree are at most as many as the tokens with the name. Where they are as many,
every such token is a leaf, in the whole and therefore in every part. -/

namespace Formula.Grammar

open Token (Kind)

variable {x : String} {s : Expr} {phrase : Phrase} {input rest inner : List Kind}

/-! ## Leaves and tokens -/

namespace Phrase

/-- The number of leaves `x` of the tree that a phrase means. -/
def uses (x : String) : Phrase → Nat
  | .expression e | .chain _ e | .links _ _ e | .unary e | .primary e | .suffixes _ e => e.uses x
  | .arguments _ es | .items _ es => Expr.usesAll x es

/-- The number of leaves `x` of the tree that a phrase goes on with. -/
def given (x : String) : Phrase → Nat
  | .links _ left _ => left.uses x
  | .suffixes operand _ => operand.uses x
  | _ => 0

/-- The phrase with `s` in the place of every leaf `x`. -/
def substitute (phrase : Phrase) (x : String) (s : Expr) : Phrase :=
  match phrase with
  | .expression e => .expression (e.substitute x s)
  | .chain level e => .chain level (e.substitute x s)
  | .links level left e => .links level (left.substitute x s) (e.substitute x s)
  | .unary e => .unary (e.substitute x s)
  | .primary e => .primary (e.substitute x s)
  | .suffixes operand e => .suffixes (operand.substitute x s) (e.substitute x s)
  | .arguments close es => .arguments close (Expr.substituteAll es x s)
  | .items close es => .items close (Expr.substituteAll es x s)

end Phrase

@[simp]
theorem count_symbol (symbol : Symbol) (kinds : List Kind) :
    (Kind.symbol symbol :: kinds).count (.name x) = kinds.count (.name x) :=
  List.count_cons_of_ne (by simp)

theorem count_name_le (name : String) (kinds : List Kind) :
    kinds.count (.name x) ≤ (Kind.name name :: kinds).count (.name x) :=
  (List.sublist_cons_self _ _).count_le _

/-- No more leaves are new than there are tokens with the name. -/
theorem Derivation.uses_add_count_le (d : Derivation phrase input rest) (x : String) :
    phrase.uses x + rest.count (.name x) ≤ phrase.given x + input.count (.name x) := by
  induction d with
  | conversion type _ ih =>
    have htype := type.suffix.sublist.count_le (Kind.name x)
    simp only [Phrase.uses, Phrase.given, Expr.uses] at ih ⊢
    omega
  | trueLiteral rest | falseLiteral rest | nullLiteral rest =>
    simpa [Phrase.uses, Phrase.given, Expr.uses] using count_name_le _ rest
  | number | string | character => simp [Phrase.uses, Phrase.given, Expr.uses]
  | parameter name =>
    simp only [Phrase.uses, Phrase.given, Expr.uses, List.count_cons, beq_iff_eq, Kind.name.injEq]
    omega
  | @member input rest _ name _ dotted =>
    have hdotted := dotted.suffix.sublist.count_le (Kind.name x)
    have hname := count_name_le (x := x) name input
    simp only [Phrase.uses, Phrase.given, Expr.uses]
    omega
  | @call _ input _ _ _ name _ dotted _ ih =>
    have hdotted := dotted.suffix.sublist.count_le (Kind.name x)
    have hname := count_name_le (x := x) name input
    simp only [Phrase.uses, Phrase.given, Expr.uses, count_symbol] at ih hdotted ⊢
    omega
  | @access _ _ input _ name _ ih =>
    have hname := count_name_le (x := x) name input
    simp only [Phrase.uses, Phrase.given, Expr.uses, count_symbol] at ih ⊢
    omega
  | _ =>
    simp only [Phrase.uses, Phrase.given, Expr.uses, Expr.usesAll, count_symbol] at *
    omega

/-! ## Splicing -/

/-- The tokens with `inner` in parentheses in the place of every name `x`. -/
def splice (x : String) (inner : List Kind) : List Kind → List Kind
  | [] => []
  | kind :: kinds =>
    if kind = .name x then
      .symbol .openParen :: (inner ++ .symbol .closeParen :: splice x inner kinds)
    else
      kind :: splice x inner kinds

@[simp]
theorem splice_self (kinds : List Kind) :
    splice x inner (.name x :: kinds) =
      .symbol .openParen :: (inner ++ .symbol .closeParen :: splice x inner kinds) :=
  if_pos rfl

theorem splice_cons {kind : Kind} (h : kind ≠ .name x) (kinds : List Kind) :
    splice x inner (kind :: kinds) = kind :: splice x inner kinds :=
  if_neg h

@[simp]
theorem splice_symbol (symbol : Symbol) (kinds : List Kind) :
    splice x inner (.symbol symbol :: kinds) = .symbol symbol :: splice x inner kinds :=
  splice_cons (by simp) kinds

theorem splice_append (front behind : List Kind) :
    splice x inner (front ++ behind) = splice x inner front ++ splice x inner behind := by
  induction front with
  | nil => rfl
  | cons kind front ih =>
    simp only [List.cons_append, splice]
    split <;> simp [ih]

theorem splice_of_not_mem {kinds : List Kind} (h : .name x ∉ kinds) :
    splice x inner kinds = kinds := by
  induction kinds with
  | nil => rfl
  | cons kind kinds ih =>
    simp only [List.mem_cons, not_or] at h
    rw [splice_cons (Ne.symm h.1), ih h.2]

/-- Up to the first parenthesis there is nothing new. -/
theorem exists_of_splice_eq_append {kinds front behind : List Kind}
    (h : splice x inner kinds = front ++ behind) (hfront : Kind.symbol .openParen ∉ front) :
    ∃ others, kinds = front ++ others ∧ splice x inner others = behind := by
  induction front generalizing kinds with
  | nil => exact ⟨kinds, rfl, h⟩
  | cons kind front ih =>
    simp only [List.mem_cons, not_or] at hfront
    cases kinds with
    | nil => cases h
    | cons first kinds =>
      rw [splice] at h
      split at h
      · exact absurd (List.cons.inj h).1 hfront.1
      · obtain ⟨rfl, htail⟩ := List.cons.inj h
        obtain ⟨others, rfl, hothers⟩ := ih htail hfront.2
        exact ⟨others, rfl, hothers⟩

/-- The first token stays unless it is the name, and then a parenthesis comes first. -/
theorem head?_splice {kind : Kind} {kinds : List Kind} (h : kind ∈ (splice x inner kinds).head?) :
    kind ∈ kinds.head? ∨ .name x ∈ kinds.head? ∧ kind = .symbol .openParen := by
  match kinds with
  | first :: kinds =>
    rw [splice] at h
    split at h
    · next hfirst => exact .inr ⟨by simp [hfirst], by simpa using h.symm⟩
    · exact .inl h

/-! ## Conversions -/

/-- The operand of a conversion may be spliced, but no name is taken from its type. -/
theorem Conversion.splice {operand : List Kind} (h : Conversion input operand)
    (hcount : operand.count (.name x) = input.count (.name x)) :
    Conversion (splice x inner input) (splice x inner operand) := by
  obtain ⟨type, first, behind, rfl, rfl, htype, hstarts⟩ := conversion_iff.1 h
  have hnot : Kind.name x ∉ type := by
    rw [count_symbol, List.count_append, count_symbol] at hcount
    exact List.count_eq_zero.1 (by omega)
  rw [splice_symbol, splice_append, splice_of_not_mem hnot, splice_symbol, conversion_iff]
  by_cases hfirst : first = .name x
  · subst hfirst
    exact ⟨type, .symbol .openParen, _, splice_self _, by rw [splice_self], htype, .inl rfl⟩
  · exact ⟨type, first, _, splice_cons hfirst _, by rw [splice_cons hfirst], htype, hstarts⟩

/-- A conversion was one before, unless its parenthesis is new. -/
theorem exists_conversion_of_splice {operand : List Kind} (hhead : Kind.name x ∉ input.head?)
    (h : Conversion (splice x inner input) operand) : ∃ operand, Conversion input operand := by
  obtain ⟨type, first, behind, rfl, heq, htype, hstarts⟩ := conversion_iff.1 h
  match input with
  | kind :: input =>
    have hkind : kind ≠ .name x := by
      rintro rfl
      exact hhead rfl
    rw [splice_cons hkind] at heq
    obtain ⟨rfl, htail⟩ := List.cons.inj heq
    rw [← List.singleton_append, ← List.append_assoc] at htail
    obtain ⟨others, rfl, hothers⟩ := exists_of_splice_eq_append htail
      (by simpa using htype.openParen_not_mem)
    match others with
    | next :: others =>
      by_cases hnext : next = .name x
      · subst hnext
        exact ⟨.name x :: others, conversion_iff.2
          ⟨type, .name x, others, rfl, by simp, htype, .inl rfl⟩⟩
      · rw [splice_cons hnext] at hothers
        obtain ⟨rfl, -⟩ := List.cons.inj hothers
        exact ⟨next :: others, conversion_iff.2
          ⟨type, next, others, rfl, by simp, htype, hstarts⟩⟩

/-! ## What may follow -/

/-- The next token cannot start an operand; behind a primary expression it may be a
    parenthesis, which goes on with it. -/
def Follows : Phrase → List Kind → Prop
  | .primary _, rest => ∀ kind ∈ rest.head?, kind.startsOperand = true → kind = .symbol .openParen
  | .arguments close _, _ | .items close _, _ => close = .closeParen ∨ close = .closeBracket
  | _, rest => ∀ kind ∈ rest.head?, kind.startsOperand = false

theorem follows_symbol {symbol : Symbol} (h : (Kind.symbol symbol).startsOperand = false)
    (kinds : List Kind) :
    ∀ kind ∈ (Kind.symbol symbol :: kinds).head?, kind.startsOperand = false := by
  intro kind hkind
  obtain rfl : Kind.symbol symbol = kind := by simpa using hkind
  exact h

theorem follows_close {close : Symbol} (h : close = .closeParen ∨ close = .closeBracket)
    (kinds : List Kind) :
    ∀ kind ∈ (Kind.symbol close :: kinds).head?, kind.startsOperand = false := by
  rcases h with rfl | rfl <;> exact follows_symbol rfl kinds

theorem Derivation.follows_links {level : Nat} {left e : Expr}
    (d : Derivation (.links level left e) input rest)
    (h : ∀ kind ∈ rest.head?, kind.startsOperand = false) :
    ∀ kind ∈ input.head?, kind.startsOperand = false := by
  cases d with
  | last => exact h
  | link operator binds => cases operator <;> first | exact follows_symbol rfl _ | cases binds

theorem Derivation.follows_suffixes {operand e : Expr}
    (d : Derivation (.suffixes operand e) input rest)
    (h : ∀ kind ∈ rest.head?, kind.startsOperand = false) : Follows (.primary operand) input := by
  intro kind hkind hstarts
  cases d with
  | bare => exact absurd hstarts (by simp [h kind hkind])
  | invocation => exact (Option.some.inj hkind).symm
  | element =>
    obtain rfl := Option.some.inj hkind
    cases hstarts
  | access =>
    obtain rfl := Option.some.inj hkind
    cases hstarts

/-! ## Names -/

theorem startsMember_splice (h : startsMember rest = false) :
    startsMember (splice x inner rest) = false := by
  unfold startsMember
  split
  · next name tail heq =>
    obtain ⟨others, rfl, -⟩ := exists_of_splice_eq_append
      (show splice x inner rest = [.symbol .dot, .name name] ++ tail from heq) (by simp)
    cases h
  · rfl

/-- A name that is not called is not called after splicing, as no name follows it. -/
theorem uncalled_splice {e : Expr} (h : rest.head? ≠ some (.symbol .openParen))
    (hfollows : Follows (.primary e) rest) :
    (splice x inner rest).head? ≠ some (.symbol .openParen) := by
  intro hhead
  rcases head?_splice hhead with hopen | ⟨hname, -⟩
  · exact h hopen
  · cases hfollows _ hname rfl

theorem Members.splice {names : List String} (h : Members input names rest)
    (hcount : rest.count (.name x) = input.count (.name x)) :
    Members (splice x inner input) names (splice x inner rest) := by
  obtain ⟨taken, rfl, -, hother⟩ := h.exists_taken
  have hnot : Kind.name x ∉ taken := by
    rw [List.count_append] at hcount
    exact List.count_eq_zero.1 (by omega)
  rw [splice_append, splice_of_not_mem hnot]
  exact hother _

/-- A primary expression that starts with a leaf `x` is the leaf. -/
theorem Derivation.eq_tail_of_leaf {base : Expr} {tail : List Kind}
    (d : Derivation (.primary base) (.name x :: tail) rest)
    (hcount : base.uses x + rest.count (.name x) = (Kind.name x :: tail).count (.name x)) :
    tail = rest ∧ rest.head? ≠ some (.symbol .openParen) := by
  rw [List.count_cons_self] at hcount
  cases d with
  | trueLiteral | falseLiteral | nullLiteral => simp [Expr.uses] at hcount
  | parameter _ _ _ uncalled => exact ⟨rfl, uncalled⟩
  | member _ _ dotted =>
    have hdotted := dotted.suffix.sublist.count_le (Kind.name x)
    rw [Expr.uses] at hcount
    omega
  | call _ _ dotted arguments =>
    have hdotted := dotted.suffix.sublist.count_le (Kind.name x)
    have harguments := arguments.uses_add_count_le x
    simp only [Phrase.uses, Phrase.given, Expr.uses, count_symbol] at hdotted harguments hcount
    omega

/-- A name is not `x` if the tokens behind it have all of the tokens `x`. -/
theorem ne_of_count {name : String} (kinds : List Kind)
    (hcount : (Kind.name name :: kinds).count (.name x) ≤ kinds.count (.name x)) :
    Kind.name name ≠ .name x := by
  intro heq
  rw [heq, List.count_cons_self] at hcount
  omega

/-- A dotted name that takes no `x` is spliced to itself. -/
theorem Members.splice_dotted {name : String} {names : List String} (h : Members input names rest)
    (hcount : rest.count (.name x) = (Kind.name name :: input).count (.name x)) :
    Kind.name name ≠ .name x ∧
      Members (Grammar.splice x inner input) names (Grammar.splice x inner rest) := by
  have hle := h.suffix.sublist.count_le (Kind.name x)
  have hname : Kind.name name ≠ .name x := ne_of_count input (by omega)
  rw [List.count_cons_of_ne hname] at hcount
  exact ⟨hname, h.splice hcount⟩

/-! ## Derivations -/

variable (dinner : Derivation (.expression s) inner []) (hinner : ¬ IsPredefinedArray inner)
include dinner hinner

/-- No conversion arises in front of a primary expression. -/
theorem not_conversion_splice {base : Expr} (primary : Derivation (.primary base) input rest)
    (unconverted : ∀ operand, ¬ Conversion input operand) (hfollows : Follows (.primary base) rest)
    (hcount : base.uses x + rest.count (.name x) = input.count (.name x)) (operand : List Kind) :
    ¬ Conversion (splice x inner input) operand := by
  by_cases hhead : Kind.name x ∈ input.head?
  · obtain ⟨tail, rfl⟩ : ∃ tail, input = .name x :: tail := by
      match input, hhead with
      | _ :: tail, rfl => exact ⟨tail, rfl⟩
    obtain ⟨rfl, huncalled⟩ := primary.eq_tail_of_leaf hcount
    rw [splice_self]
    refine dinner.not_conversion_parenthesis (fun kind hkind => ?_) operand
    rintro (hstarts | ⟨-, hpredefined⟩)
    · rcases head?_splice hkind with hkind | ⟨hname, -⟩
      · obtain rfl := hfollows kind hkind hstarts
        exact huncalled hkind
      · cases hfollows _ hname rfl
    · exact hinner (dinner.isPredefinedArray hpredefined)
  · intro h
    obtain ⟨_, hbefore⟩ := exists_conversion_of_splice hhead h
    exact unconverted _ hbefore

/-- **Where every token `x` is a leaf, it can be spliced.** -/
theorem Derivation.splice (d : Derivation phrase input rest) (hfollows : Follows phrase rest)
    (hcount : phrase.uses x + rest.count (.name x) = phrase.given x + input.count (.name x)) :
    Nonempty (Derivation (phrase.substitute x s) (splice x inner input) (splice x inner rest)) := by
  -- no part has more leaves than tokens, so where the whole has as many of them, each part has
  induction d with
  | plain _ ih => exact (ih hfollows hcount).map .plain
  | conditional c t f ihc iht ihf =>
    have hc := c.uses_add_count_le x
    have ht := t.uses_add_count_le x
    have hf := f.uses_add_count_le x
    simp only [Phrase.uses, Phrase.given, Expr.uses, count_symbol] at hc ht hf hcount ihc iht ihf
    obtain ⟨condition⟩ := ihc (follows_symbol rfl _) (by omega)
    obtain ⟨ifTrue⟩ := iht (follows_symbol rfl _) (by omega)
    obtain ⟨ifFalse⟩ := ihf hfollows (by omega)
    rw [splice_symbol] at condition ifTrue
    exact ⟨.conditional condition ifTrue ifFalse⟩
  | chain binds first others ihfirst ihothers =>
    have hfirst := first.uses_add_count_le x
    have hothers := others.uses_add_count_le x
    simp only [Phrase.uses, Phrase.given] at hfirst hothers hcount ihfirst ihothers
    obtain ⟨first'⟩ := ihfirst (others.follows_links hfollows) (by omega)
    obtain ⟨others'⟩ := ihothers hfollows (by omega)
    exact ⟨.chain binds first' others'⟩
  | operand _ ih => exact (ih hfollows hcount).map .operand
  | last => exact ⟨.last _ _ _⟩
  | link operator binds next others ihnext ihothers =>
    have hnext := next.uses_add_count_le x
    have hothers := others.uses_add_count_le x
    simp only [Phrase.uses, Phrase.given, Expr.uses, count_symbol]
      at hnext hothers hcount ihnext ihothers
    obtain ⟨next'⟩ := ihnext (others.follows_links hfollows) (by omega)
    obtain ⟨others'⟩ := ihothers hfollows (by omega)
    rw [splice_symbol]
    exact ⟨.link operator binds next' others'⟩
  | prefixed operator sign d ih =>
    rw [splice_symbol]
    rw [count_symbol] at hcount
    exact (ih hfollows hcount).map (.prefixed operator sign)
  | conversion type d ih =>
    have htype := type.suffix.sublist.count_le (Kind.name x)
    have hd := d.uses_add_count_le x
    simp only [Phrase.uses, Phrase.given, Expr.uses] at hd hcount ih
    obtain ⟨d'⟩ := ih hfollows (by omega)
    exact ⟨.conversion (type.splice (by omega)) d'⟩
  | @value base e input middle rest unconverted primary suffixes ihprimary ihsuffixes =>
    have hprimary := primary.uses_add_count_le x
    have hsuffixes := suffixes.uses_add_count_le x
    simp only [Phrase.uses, Phrase.given] at hprimary hsuffixes hcount ihprimary ihsuffixes
    have hmiddle := suffixes.follows_suffixes hfollows
    obtain ⟨primary'⟩ := ihprimary hmiddle (by omega)
    obtain ⟨suffixes'⟩ := ihsuffixes hfollows (by omega)
    have hbase : base.uses x + middle.count (.name x) = input.count (.name x) := by omega
    exact ⟨.value (not_conversion_splice dinner hinner primary unconverted hmiddle hbase) primary'
      suffixes'⟩
  | number value rest =>
    rw [splice_cons (by simp)]
    exact ⟨.number value _⟩
  | string value rest =>
    rw [splice_cons (by simp)]
    exact ⟨.string value _⟩
  | character rest =>
    rw [splice_cons (by simp)]
    exact ⟨.character _⟩
  | trueLiteral rest =>
    simp only [Phrase.uses, Phrase.given, Expr.uses] at hcount
    rw [splice_cons (ne_of_count rest (by omega))]
    exact ⟨.trueLiteral _⟩
  | falseLiteral rest =>
    simp only [Phrase.uses, Phrase.given, Expr.uses] at hcount
    rw [splice_cons (ne_of_count rest (by omega))]
    exact ⟨.falseLiteral _⟩
  | nullLiteral rest =>
    simp only [Phrase.uses, Phrase.given, Expr.uses] at hcount
    rw [splice_cons (ne_of_count rest (by omega))]
    exact ⟨.nullLiteral _⟩
  | parameter name word whole uncalled =>
    simp only [Phrase.substitute, Expr.substitute]
    split
    · next hname =>
      subst hname
      rw [splice_self]
      exact dinner.nonempty_parenthesis _
    · next hname =>
      rw [splice_cons (by simpa using hname)]
      exact ⟨.parameter name word (startsMember_splice whole) (uncalled_splice uncalled hfollows)⟩
  | @member input rest _ name word dotted several whole uncalled =>
    have huntaken : rest.count (.name x) = (Kind.name name :: input).count (.name x) := by
      simpa only [Phrase.uses, Phrase.given, Expr.uses, Nat.zero_add] using hcount
    obtain ⟨hname, dotted'⟩ := dotted.splice_dotted huntaken
    rw [splice_cons hname]
    exact ⟨.member name word dotted' several (startsMember_splice whole)
      (uncalled_splice uncalled hfollows)⟩
  | @call _ input inside _ _ name word dotted arguments ih =>
    have hdotted := dotted.suffix.sublist.count_le (Kind.name x)
    have hinput := count_name_le (x := x) name input
    have harguments := arguments.uses_add_count_le x
    simp only [Phrase.uses, Phrase.given, Expr.uses, count_symbol] at hdotted harguments hcount ih
    have huntaken : (Kind.symbol .openParen :: inside).count (.name x) =
        (Kind.name name :: input).count (.name x) := by
      rw [count_symbol]
      omega
    obtain ⟨hname, dotted'⟩ := dotted.splice_dotted huntaken
    obtain ⟨arguments'⟩ := ih (.inl rfl) (by omega)
    rw [splice_symbol] at dotted'
    rw [splice_cons hname]
    exact ⟨.call name word dotted' arguments'⟩
  | parenthesis d ih =>
    rw [count_symbol] at hcount
    rw [splice_symbol]
    obtain ⟨d'⟩ := ih (follows_symbol rfl _) (by rw [count_symbol]; exact hcount)
    rw [splice_symbol] at d'
    exact ⟨.parenthesis d'⟩
  | bare => exact ⟨.bare _ _⟩
  | invocation arguments others iharguments ihothers =>
    have harguments := arguments.uses_add_count_le x
    have hothers := others.uses_add_count_le x
    simp only [Phrase.uses, Phrase.given, Expr.uses, count_symbol]
      at harguments hothers hcount iharguments ihothers
    obtain ⟨arguments'⟩ := iharguments (.inl rfl) (by omega)
    obtain ⟨others'⟩ := ihothers hfollows (by omega)
    rw [splice_symbol]
    exact ⟨.invocation arguments' others'⟩
  | element arguments others iharguments ihothers =>
    have harguments := arguments.uses_add_count_le x
    have hothers := others.uses_add_count_le x
    simp only [Phrase.uses, Phrase.given, Expr.uses, count_symbol]
      at harguments hothers hcount iharguments ihothers
    obtain ⟨arguments'⟩ := iharguments (.inr rfl) (by omega)
    obtain ⟨others'⟩ := ihothers hfollows (by omega)
    rw [splice_symbol]
    exact ⟨.element arguments' others'⟩
  | @access operand e input rest name others ih =>
    have hothers := others.uses_add_count_le x
    simp only [Phrase.uses, Phrase.given, Expr.uses, count_symbol] at hothers hcount ih
    have hname : Kind.name name ≠ .name x := ne_of_count input (by omega)
    rw [List.count_cons_of_ne hname] at hcount
    obtain ⟨others'⟩ := ih hfollows (by omega)
    rw [splice_symbol, splice_cons hname]
    exact ⟨.access name others'⟩
  | empty close rest =>
    rw [splice_symbol]
    exact ⟨.empty close _⟩
  | listed _ ih => exact (ih hfollows hcount).map .listed
  | only d ih =>
    simp only [Phrase.uses, Phrase.given, Expr.usesAll, count_symbol] at hcount ih
    obtain ⟨d'⟩ := ih (follows_close hfollows _) (by omega)
    rw [splice_symbol] at d'
    exact ⟨.only d'⟩
  | comma d others ih ihothers =>
    have hd := d.uses_add_count_le x
    have hothers := others.uses_add_count_le x
    simp only [Phrase.uses, Phrase.given, Expr.usesAll, count_symbol]
      at hd hothers hcount ih ihothers
    obtain ⟨d'⟩ := ih (follows_symbol rfl _) (by omega)
    obtain ⟨others'⟩ := ihothers hfollows (by omega)
    rw [splice_symbol] at d'
    exact ⟨.comma d' others'⟩

end Formula.Grammar
