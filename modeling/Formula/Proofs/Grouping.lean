import Formula.Proofs.Preorder
import Formula.Proofs.Reading
import Formula.Proofs.Recognition
import Formula.Proofs.Spacing

set_option autoImplicit false

/-! # How operators group

Operands with operators between them can be read as many trees. The parser builds the one in which
no operator stands above one that binds looser, and in which operators of one level group to the
left. That the grouping says all this only node by node, and still leaves one tree, is shown in two
steps: every grouped tree is derived by the grammar from the words that it reads as, and adding one
operator and operand after the other along the right edge of a tree keeps it grouped. -/

namespace Formula

open Grammar Token
open Token (Kind)
open Formula.Expr (Item EndsInOperand)

/-! ## Grouped trees -/

/-- The symbols of the binary operators, loosest first. -/
def binaryOperators : List Symbol :=
  [.coalesce, .either, .both, .bar, .caret, .ampersand, .equal, .notEqual, .less, .lessEqual,
    .greater, .greaterEqual, .shiftLeft, .shiftRight, .plus, .minus, .star, .slash, .percent]

/-- How tightly the binary operator that is written like this binds. -/
def operatorLevel? (text : String) : Option Nat :=
  (binaryOperators.find? fun symbol => symbol.text == text).bind Symbol.level?

theorem mem_binaryOperators_iff (symbol : Symbol) :
    symbol ∈ binaryOperators ↔ ∃ level, symbol.level? = some level := by
  cases symbol <;> simp [binaryOperators, Symbol.level?]

theorem operatorLevel?_text {operator : Symbol} {level : Nat}
    (binds : operator.level? = some level) :
    operatorLevel? operator.text = some level := by
  cases operator <;> cases binds <;> decide

/-- A symbol is known by its text. -/
theorem text_injective {a b : Symbol} (h : a.text = b.text) : a = b := by
  obtain ⟨tokens, hlex, hkinds⟩ := lexes_symbol a
  obtain ⟨tokens', hlex', hkinds'⟩ := lexes_symbol b
  rw [h, hlex'] at hlex
  obtain rfl := Except.ok.inj hlex
  rw [hkinds'] at hkinds
  simpa using hkinds.symm

namespace Expr

/-- The level of the operator of a binary node. -/
def level? : Expr → Option Nat
  | .binary operator _ _ => operatorLevel? operator
  | _ => none

/-- A node groups its parts: the operand of a unary operator is no binary one, and of the operands
    of a binary operator the left one binds at least as tightly and the right one more tightly. -/
def groups : Expr → Bool
  | .unary _ operand => operand.kind != .binary
  | .binary operator left right => (operatorLevel? operator).all fun level =>
    left.level?.all (level ≤ ·) && right.level?.all (level < ·)
  | _ => true

/-- Every node of a tree groups its parts. -/
def Grouped (e : Expr) : Prop := ∀ node ∈ e.preorder, node.groups = true

theorem grouped_parameter (name : String) : Grouped (.parameter name) := by
  intro node hnode
  obtain rfl := List.mem_singleton.1 hnode
  rfl

theorem grouped_unary {operator : String} {operand : Expr} :
    Grouped (.unary operator operand) ↔ operand.kind ≠ .binary ∧ operand.Grouped := by
  simp [Grouped, preorder, groups]

theorem grouped_binary {operator : String} {left right : Expr} :
    Grouped (.binary operator left right) ↔
      groups (.binary operator left right) = true ∧ left.Grouped ∧ right.Grouped := by
  simp [Grouped, preorder, or_imp, forall_and]

theorem groups_binary {operator : String} {left right : Expr} {level : Nat}
    (binds : operatorLevel? operator = some level) :
    groups (.binary operator left right) = true ↔
      (∀ inner ∈ left.level?, level ≤ inner) ∧ ∀ inner ∈ right.level?, level < inner := by
  simp only [groups, binds, Option.all_some, Bool.and_eq_true, Option.all_eq_true,
    decide_eq_true_eq, Option.mem_def]

end Expr

/-! ## Operands and the operators between them -/

/-- A name that is no keyword, with any number of prefix operators in front; `verbatim` says whether
    the name is written with an `@`. -/
structure Operand where
  signs : List Symbol
  name : String
  verbatim : Bool
  areSigns : ∀ sign ∈ signs, sign ∈ [.minus, .bang, .plus, .tilde]
  isIdentifier : isIdentifier name.toList = true
  isParameter : isKeyword name = false

namespace Operand

/-- The words of an operand. -/
def words (operand : Operand) : List Word :=
  operand.signs.map .mark ++
    [if operand.verbatim then .verbatim operand.name operand.isIdentifier
      else .name operand.name operand.isIdentifier]

/-- What an operand says. -/
def reading (operand : Operand) : List Item :=
  operand.signs.map (fun sign => .operator sign.text) ++ [.parameter operand.name]

/-- The tree of an operand. -/
def tree (operand : Operand) : Expr :=
  operand.signs.foldr (fun sign e => .unary sign.text e) (.parameter operand.name)

/-- The operand behind its first sign. -/
def unsigned (operand : Operand) : Operand :=
  { operand with
    signs := operand.signs.tail
    areSigns := fun sign hsign => operand.areSigns sign (List.mem_of_mem_tail hsign) }

end Operand

/-- A binary operator and the operand behind it. -/
structure Link where
  operator : Symbol
  operand : Operand
  isOperator : operator ∈ binaryOperators

/-- Operands with a binary operator between each two of them. -/
structure Chain where
  first : Operand
  links : List Link

namespace Chain

/-- The words of a chain. -/
def words (chain : Chain) : List Word :=
  chain.first.words ++ chain.links.flatMap fun link => .mark link.operator :: link.operand.words

/-- What a chain says. -/
def reading (chain : Chain) : List Item :=
  chain.first.reading ++
    chain.links.flatMap fun link => .operator link.operator.text :: link.operand.reading

/-- The kinds of the words of a chain. -/
def kinds (chain : Chain) : List Kind := chain.words.map Word.kind

end Chain

theorem Operand.kinds_words (operand : Operand) :
    operand.words.map Word.kind = operand.signs.map .symbol ++ [.name operand.name] := by
  have hsigns : operand.signs.map (Word.kind ∘ .mark) = operand.signs.map Kind.symbol := rfl
  rw [Operand.words, List.map_append, List.map_map, hsigns]
  cases operand.verbatim <;> rfl

namespace Chain

theorem kinds_split (first : Operand) (left right : List Link) (link : Link) :
    kinds ⟨first, left ++ link :: right⟩ =
      kinds ⟨first, left⟩ ++ .symbol link.operator :: kinds ⟨link.operand, right⟩ := by
  simp [kinds, words, Word.kind]

/-- A chain says names and operators, and no operator is a question mark. -/
theorem mem_reading {chain : Chain} {item : Item} (h : item ∈ chain.reading) :
    (∃ name, item = .parameter name) ∨
      ∃ symbol : Symbol, item = .operator symbol.text ∧ symbol ≠ .question := by
  have hoperand (operand : Operand) (h : item ∈ operand.reading) :
      (∃ name, item = .parameter name) ∨
      ∃ symbol : Symbol, item = .operator symbol.text ∧ symbol ≠ .question := by
    rcases List.mem_append.1 h with h | h
    · obtain ⟨sign, hsign, rfl⟩ := List.mem_map.1 h
      refine .inr ⟨sign, rfl, ?_⟩
      rintro rfl
      exact absurd (operand.areSigns _ hsign) (by decide)
    · exact .inl ⟨_, List.mem_singleton.1 h⟩
  rcases List.mem_append.1 h with h | h
  · exact hoperand _ h
  · obtain ⟨link, -, h⟩ := List.mem_flatMap.1 h
    rcases List.mem_cons.1 h with rfl | h
    · refine .inr ⟨link.operator, rfl, ?_⟩
      intro hquestion
      exact absurd link.isOperator (by rw [hquestion]; decide)
    · exact hoperand _ h

/-! ## Where a reading is cut -/

/-- A reading that starts with an operator is that of a chain with a sign in front. -/
theorem exists_sign {chain : Chain} {operator : String} {items : List Item}
    (h : chain.reading = .operator operator :: items) :
    ∃ sign ∈ [.minus, .bang, .plus, .tilde], operator = Symbol.text sign ∧
      chain.kinds = .symbol sign :: kinds ⟨chain.first.unsigned, chain.links⟩ ∧
      items = reading ⟨chain.first.unsigned, chain.links⟩ := by
  obtain ⟨first, links⟩ := chain
  cases hsigns : first.signs with
  | nil => simp [reading, Operand.reading, hsigns] at h
  | cons sign signs =>
    have hmem : sign ∈ first.signs := by simp [hsigns]
    refine ⟨sign, first.areSigns sign hmem, ?_⟩
    simp only [reading, Operand.reading, hsigns, List.map_cons, List.cons_append,
      List.cons.injEq, Item.operator.injEq] at h
    obtain ⟨rfl, rfl⟩ := h
    refine ⟨rfl, ?_, ?_⟩
    · simp [kinds, words, Operand.kinds_words, Operand.unsigned, hsigns]
    · simp [reading, Operand.reading, Operand.unsigned, hsigns]

/-- A reading that is a name is that of a chain of one operand without signs. -/
theorem kinds_of_reading_singleton {chain : Chain} {name : String}
    (h : chain.reading = [.parameter name]) :
    chain.links = [] ∧ chain.kinds = [.name name] ∧ isKeyword name = false := by
  obtain ⟨first, links⟩ := chain
  cases hsigns : first.signs with
  | nil =>
    cases links with
    | nil =>
      simp only [reading, Operand.reading, hsigns, List.map_nil, List.nil_append, List.flatMap_nil,
        List.append_nil, List.cons.injEq, Item.parameter.injEq, and_true] at h
      subst h
      exact ⟨rfl, by simp [kinds, words, Operand.kinds_words, hsigns], first.isParameter⟩
    | cons link links => simp [reading, Operand.reading, hsigns] at h
  | cons sign signs => simp [reading, Operand.reading, hsigns] at h

/-- What stands in front of a binary operator is at least the first operand. -/
theorem exists_behind_first {first : Operand} {items front behind : List Item} {operator : String}
    (hfront : EndsInOperand front)
    (h : first.reading ++ items = front ++ .operator operator :: behind) :
    ∃ middle, front = first.reading ++ middle ∧ items = middle ++ .operator operator :: behind := by
  rw [Operand.reading, List.append_assoc] at h
  rcases List.append_eq_append_iff.1 h with ⟨middle, rfl, hmiddle⟩ | ⟨middle, hsigns, hmiddle⟩
  · cases middle with
    | nil => cases hmiddle
    | cons item middle =>
      obtain ⟨rfl, rfl⟩ := List.cons.inj hmiddle
      exact ⟨middle, by simp [Operand.reading], rfl⟩
  · -- all the signs are operators, so none of them ends an operand
    obtain ⟨others, last, rfl, hlast⟩ := hfront
    have hmem : last ∈ first.signs.map fun sign => Item.operator sign.text := by simp [hsigns]
    obtain ⟨sign, -, rfl⟩ := List.mem_map.1 hmem
    exact absurd rfl (hlast sign.text)

/-- An operator behind an operand is one of the chain's binary operators. -/
theorem exists_link {first : Operand} {links : List Link} {front behind : List Item}
    {operator : String} (hfront : EndsInOperand front)
    (h : reading ⟨first, links⟩ = front ++ .operator operator :: behind) :
    ∃ left link right, links = left ++ link :: right ∧ operator = link.operator.text ∧
      front = reading ⟨first, left⟩ ∧ behind = reading ⟨link.operand, right⟩ := by
  induction links generalizing first front with
  | nil =>
    obtain ⟨middle, -, hmiddle⟩ := exists_behind_first hfront h
    cases middle <;> cases hmiddle
  | cons link links ih =>
    obtain ⟨middle, rfl, hmiddle⟩ := exists_behind_first hfront h
    cases middle with
    | nil =>
      obtain ⟨hoperator, hbehind⟩ := List.cons.inj hmiddle
      refine ⟨[], link, links, rfl, (Item.operator.inj hoperator).symm, ?_, hbehind.symm⟩
      simp [reading]
    | cons item middle =>
      obtain ⟨rfl, hbehind⟩ := List.cons.inj hmiddle
      obtain ⟨left, next, right, rfl, hoperator, rfl, rfl⟩ := ih hfront.behind hbehind
      refine ⟨link :: left, next, right, rfl, hoperator, ?_, rfl⟩
      simp [reading]

end Chain

/-! ## Every grouped tree is derived -/

theorem Link.exists_level (link : Link) : ∃ level, link.operator.level? = some level :=
  (mem_binaryOperators_iff _).1 link.isOperator

theorem operatorLevel?_lt {text : String} {level : Nat} (h : operatorLevel? text = some level) :
    level < levelCount := by
  obtain ⟨symbol, -, binds⟩ := Option.bind_eq_some_iff.1 h
  exact level_lt binds

namespace Expr

theorem level?_eq_none {e : Expr} (h : e.kind ≠ .binary) : e.level? = none := by
  cases e <;> first | rfl | exact absurd rfl h

/-- The tightest level of chains that a tree can stand at. -/
def tightness (e : Expr) : Nat := e.level?.getD levelCount

theorem tightness_le (e : Expr) : e.tightness ≤ levelCount := by
  unfold tightness
  cases h : e.level? with
  | none => exact Nat.le_refl _
  | some level =>
    cases e with
    | binary operator left right => exact Nat.le_of_lt (operatorLevel?_lt h)
    | _ => cases h

theorem le_tightness {e : Expr} {level : Nat} (hlevel : level ≤ levelCount)
    (h : ∀ inner ∈ e.level?, level ≤ inner) : level ≤ e.tightness := by
  unfold tightness
  cases hinner : e.level? with
  | none => exact hlevel
  | some inner => exact h inner hinner

end Expr

namespace Grammar

variable {input middle rest : List Kind} {level : Nat} {e left right : Expr} {operator : Symbol}

theorem nonempty_unary_of_chain (d : Derivation (.chain levelCount e) input rest) :
    Nonempty (Derivation (.unary e) input rest) := by
  cases d with
  | chain inner => exact absurd inner (Nat.lt_irrefl _)
  | operand unary => exact ⟨unary⟩

/-- One more operator at the end of the operators of a chain. -/
theorem nonempty_links_snoc (binds : operator.level? = some level)
    (next : Derivation (.chain (level + 1) right) middle rest) :
    {left e : Expr} → {input : List Kind} →
      Derivation (.links level left e) input (.symbol operator :: middle) →
      Nonempty (Derivation (.links level left (.binary operator.text e right)) input rest)
  | _, _, _, .last _ _ _ => ⟨.link operator binds next (.last _ _ _)⟩
  | _, _, _, .link other binds' next' others =>
    (nonempty_links_snoc binds next others).map (.link other binds' next')

/-- One more operator at the end of a chain. -/
theorem nonempty_chain_snoc (binds : operator.level? = some level)
    (d : Derivation (.chain level left) input (.symbol operator :: middle))
    (next : Derivation (.chain (level + 1) right) middle rest) :
    Nonempty (Derivation (.chain level (.binary operator.text left right)) input rest) := by
  cases d with
  | chain inner first others =>
    exact (nonempty_links_snoc binds next others).map (.chain inner first)
  | operand => exact absurd (level_lt binds) (Nat.lt_irrefl _)

end Grammar

/-- A grouped tree is derived from the words that it reads as. Without a binary operator at its
    root it reads as one operand. -/
theorem derives_of_grouped : (e : Expr) → (chain : Chain) → e.reading = chain.reading → e.Grouped →
    (e.level? = none → chain.links = []) ∧ ∀ {rest : List Kind}, Stops levelCount rest →
      Nonempty (Derivation (.chain e.tightness e) (chain.kinds ++ rest) rest)
  | .parameter name, chain, hreading, _ => by
    obtain ⟨hlinks, hkinds, word⟩ := Chain.kinds_of_reading_singleton hreading.symm
    refine ⟨fun _ => hlinks, fun hrest => ?_⟩
    obtain ⟨leaf, -⟩ := exists_leaf word hrest
    rw [hkinds]
    exact ⟨.operand leaf⟩
  | .unary operator operand, chain, hreading, hgrouped => by
    obtain ⟨hkind, hoperand⟩ := Expr.grouped_unary.1 hgrouped
    have hlevel := Expr.level?_eq_none hkind
    obtain ⟨sign, hsign, rfl, hkinds, hrest⟩ := Chain.exists_sign hreading.symm
    obtain ⟨hlinks, hderives⟩ := derives_of_grouped operand _ hrest hoperand
    refine ⟨fun _ => hlinks hlevel, fun hstops => ?_⟩
    obtain ⟨d⟩ := hderives hstops
    have htight : operand.tightness = levelCount := by simp [Expr.tightness, hlevel]
    rw [htight] at d
    obtain ⟨unary⟩ := nonempty_unary_of_chain d
    rw [hkinds]
    exact ⟨.operand (.prefixed sign hsign unary)⟩
  | .binary operator left right, ⟨first, links⟩, hreading, hgrouped => by
    obtain ⟨hgroups, hleft, hright⟩ := Expr.grouped_binary.1 hgrouped
    obtain ⟨before, link, after, rfl, rfl, hbefore, hafter⟩ :=
      Chain.exists_link left.endsInOperand_reading hreading.symm
    obtain ⟨level, binds⟩ := link.exists_level
    have hlevel := operatorLevel?_text binds
    have hlt := level_lt binds
    obtain ⟨hlooser, htighter⟩ := (Expr.groups_binary hlevel).1 hgroups
    refine ⟨fun hnone => ?_, fun {rest} hstops => ?_⟩
    · rw [Expr.level?, hlevel] at hnone
      cases hnone
    · obtain ⟨dleft⟩ := (derives_of_grouped left _ hbefore hleft).2
        (stops_binary binds (Chain.kinds ⟨link.operand, after⟩ ++ rest))
      obtain ⟨dright⟩ := (derives_of_grouped right _ hafter hright).2 hstops
      -- the left part is a chain of the operator's level, the right part one of the next level
      obtain ⟨dleft, -⟩ := dleft.exists_looser (Expr.le_tightness (Nat.le_of_lt hlt) hlooser)
        left.tightness_le
      obtain ⟨dright, -⟩ := dright.exists_looser (Expr.le_tightness hlt htighter) right.tightness_le
      have htight : (Expr.binary link.operator.text left right).tightness = level := by
        simp [Expr.tightness, Expr.level?, hlevel]
      rw [htight, Chain.kinds_split, List.append_assoc, List.cons_append]
      exact nonempty_chain_snoc binds dleft dright
  | .constant value, chain, hreading, _ => by
    have hmem : Item.constant value ∈ chain.reading := by simp [← hreading, Expr.reading]
    simpa using Chain.mem_reading hmem
  | .conditional condition ifTrue ifFalse, chain, hreading, _ => by
    have hmem : Item.operator "?" ∈ chain.reading := by simp [← hreading, Expr.reading]
    obtain ⟨name, hname⟩ | ⟨symbol, hsymbol, hne⟩ := Chain.mem_reading hmem
    · cases hname
    · have htext : Symbol.question.text = symbol.text := Item.operator.inj hsymbol
      exact absurd (text_injective htext).symm hne
  | .call name arguments, chain, hreading, _ => by
    have hmem : Item.function name ∈ chain.reading := by simp [← hreading, Expr.reading]
    simpa using Chain.mem_reading hmem
  | .unsupported explanation, chain, hreading, _ => by
    have hmem : Item.unsupported explanation ∈ chain.reading := by simp [← hreading, Expr.reading]
    simpa using Chain.mem_reading hmem

/-! ## One more operator along the right edge -/

namespace Expr

/-- Whether the first operator binds looser than the second one. -/
def looser (operator other : String) : Bool :=
  (operatorLevel? operator).any fun level => (operatorLevel? other).any (level < ·)

/-- An operator and its right operand behind a tree: they go down the right edge as long as the
    operators there bind looser. -/
def attach (operator : String) (operand : Expr) : Expr → Expr
  | .binary other left right =>
    if looser other operator then .binary other left (attach operator operand right)
    else .binary operator (.binary other left right) operand
  | e => .binary operator e operand

theorem reading_attach (operator : String) (operand e : Expr) :
    (attach operator operand e).reading = e.reading ++ .operator operator :: operand.reading := by
  fun_induction attach operator operand e with
  | case1 other left right hlooser ih => simp [reading, ih]
  | case2 other left right hlooser => simp [reading]
  | case3 e hother => simp [reading]

/-- What binds looser than the operator and the tree binds looser than both together. -/
theorem lt_level?_attach {operator : String} {level : Nat}
    (binds : operatorLevel? operator = some level) (operand : Expr) {bound : Nat}
    (hlevel : bound < level) {e : Expr} (he : ∀ inner ∈ e.level?, bound < inner) :
    ∀ inner ∈ (attach operator operand e).level?, bound < inner := by
  have hroot (left right : Expr) :
      ∀ inner ∈ (Expr.binary operator left right).level?, bound < inner := by
    intro inner hinner
    rw [level?, binds] at hinner
    obtain rfl := Option.some.inj hinner
    exact hlevel
  fun_cases attach operator operand e with
  | case1 other left right hlooser => exact he
  | case2 other left right hlooser => exact hroot _ _
  | case3 hother => exact hroot _ _

theorem grouped_attach {operator : String} {level : Nat}
    (binds : operatorLevel? operator = some level)
    {operand : Expr} (hoperand : operand.Grouped) (hsingle : operand.level? = none) {e : Expr}
    (he : e.Grouped) : (attach operator operand e).Grouped := by
  fun_induction attach operator operand e with
  | case1 other left right hlooser ih =>
    obtain ⟨hgroups, hleft, hright⟩ := grouped_binary.1 he
    obtain ⟨outer, houter, hlt⟩ := (Option.any_eq_true _ _).1 hlooser
    obtain ⟨hleftLevel, hrightLevel⟩ := (groups_binary houter).1 hgroups
    have hlevel : outer < level := by simpa [binds] using hlt
    exact grouped_binary.2 ⟨(groups_binary houter).2
      ⟨hleftLevel, lt_level?_attach binds operand hlevel hrightLevel⟩, hleft, ih hright⟩
  | case2 other left right hlooser =>
    refine grouped_binary.2 ⟨(groups_binary binds).2 ⟨?_, by simp [hsingle]⟩, he, hoperand⟩
    intro inner hinner
    -- the operator at the root does not bind looser
    refine Nat.le_of_not_lt fun hlt => hlooser ?_
    exact (Option.any_eq_true _ _).2 ⟨inner, hinner, by simpa [binds] using hlt⟩
  | case3 e hother =>
    have hnone : e.level? = none := by
      cases e with
      | binary other left right => exact absurd rfl (hother other left right)
      | _ => rfl
    exact grouped_binary.2
      ⟨(groups_binary binds).2 ⟨by simp [hnone], by simp [hsingle]⟩, he, hoperand⟩

end Expr

namespace Operand

theorem reading_tree (operand : Operand) : operand.tree.reading = operand.reading := by
  unfold tree reading
  induction operand.signs with
  | nil => simp [Expr.reading]
  | cons sign signs ih => simpa [Expr.reading] using ih

theorem grouped_tree (operand : Operand) : operand.tree.Grouped ∧ operand.tree.kind ≠ .binary := by
  unfold tree
  induction operand.signs with
  | nil => exact ⟨Expr.grouped_parameter _, by simp [Expr.kind]⟩
  | cons sign signs ih => exact ⟨Expr.grouped_unary.2 ⟨ih.2, ih.1⟩, by simp [Expr.kind]⟩

end Operand

/-- A chain's operators and operands can be added to any grouped tree. -/
theorem exists_grouped_links (links : List Link) {e : Expr} (he : e.Grouped) :
    ∃ grown : Expr, grown.Grouped ∧ grown.reading =
      e.reading ++ links.flatMap fun link =>
        .operator link.operator.text :: link.operand.reading := by
  induction links generalizing e with
  | nil => exact ⟨e, he, by simp⟩
  | cons link links ih =>
    obtain ⟨level, binds⟩ := link.exists_level
    obtain ⟨hgrouped, hkind⟩ := link.operand.grouped_tree
    obtain ⟨grown, hgrown, hreading⟩ := ih (Expr.grouped_attach (operatorLevel?_text binds) hgrouped
      (Expr.level?_eq_none hkind) he)
    refine ⟨grown, hgrown, ?_⟩
    rw [hreading, Expr.reading_attach, link.operand.reading_tree]
    simp

/-- Some grouped tree reads as the chain. -/
theorem Chain.exists_grouped (chain : Chain) :
    ∃ e : Expr, e.Grouped ∧ e.reading = chain.reading := by
  obtain ⟨e, hgrouped, hreading⟩ := exists_grouped_links chain.links chain.first.grouped_tree.1
  exact ⟨e, hgrouped, by rw [hreading, chain.first.reading_tree, reading]⟩

/-! ## The grouping of a text -/

/-- Every grouped tree that reads as the words of a text is what the text is parsed to. -/
theorem parseWith_of_grouped {chain : Chain} {text : String} (htext : Spaced chain.words text)
    {limit : Nat} (hlimit : chain.words.length ≤ limit) {e : Expr}
    (hreading : e.reading = chain.reading) (hgrouped : e.Grouped) :
    parseWith ⟨limit⟩ text = .ok e := by
  obtain ⟨tokens, htokens, hkinds⟩ := htext.exists_tokens
  obtain ⟨d⟩ := (derives_of_grouped e chain hreading hgrouped).2 (stops_nil levelCount)
  obtain ⟨d, -⟩ := d.exists_looser (Nat.zero_le _) e.tightness_le
  rw [List.append_nil, Chain.kinds, ← hkinds] at d
  have hlength : tokens.length = chain.words.length := by
    simpa using congrArg List.length hkinds
  exact parseWith_of_derivation htokens (hlength ▸ hlimit) (.plain d)

/-- Operands with binary operators between them, written with spaces between the words, are parsed
    under a limit of at least the number of words: to a tree that reads as the words do, in which
    every node groups its parts. No other tree does both. -/
theorem parseWith_grouped (chain : Chain) {text : String} (htext : Spaced chain.words text)
    {limit : Nat} (hlimit : chain.words.length ≤ limit) :
    ∃ e, parseWith ⟨limit⟩ text = .ok e ∧ e.reading = chain.reading ∧ e.Grouped ∧
      ∀ other : Expr, other.reading = chain.reading → other.Grouped → other = e := by
  obtain ⟨e, hgrouped, hreading⟩ := chain.exists_grouped
  have hparse := parseWith_of_grouped htext hlimit hreading hgrouped
  refine ⟨e, hparse, hreading, hgrouped, ?_⟩
  intro other hother hgroupedOther
  have hparseOther := parseWith_of_grouped htext hlimit hother hgroupedOther
  exact Except.ok.inj (hparseOther.symm.trans hparse)

/-- A product between two sums, of which the first operand has a sign. -/
def Chain.product : Chain where
  first := ⟨[.minus], "a", false, by decide, by decide, by decide⟩
  links := [⟨.plus, ⟨[], "b", false, by decide, by decide, by decide⟩, by decide⟩,
    ⟨.star, ⟨[], "c", true, by decide, by decide, by decide⟩, by decide⟩,
    ⟨.plus, ⟨[], "d", false, by decide, by decide, by decide⟩, by decide⟩]

theorem spaced_product : Spaced Chain.product.words "- a + b * @c + d" :=
  ⟨_, _, _, rfl, by decide +kernel, .more 0 _ (.more 0 _ (.more 0 _ (.more 0 _ (.more 0 _ (.more 0 _
    (.more 0 _ .done))))))⟩

theorem parseWith_grouped_product :
    Spaced Chain.product.words "- a + b * @c + d" ∧ Chain.product.words.length ≤ 9 ∧
    ∃ e, parseWith ⟨9⟩ "- a + b * @c + d" = .ok e ∧ e.reading = Chain.product.reading ∧ e.Grouped ∧
      ∀ other : Expr, other.reading = Chain.product.reading → other.Grouped → other = e :=
  ⟨spaced_product, by decide, parseWith_grouped Chain.product spaced_product (by decide)⟩

end Formula
