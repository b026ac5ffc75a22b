import Formula.Proofs.Parts
import Formula.Proofs.Reading
import Formula.Proofs.Recognition

set_option autoImplicit false

/-! # What a text says

The tokens of a text can be read without the grammar: dotted names are put together, parentheses and
commas are left out, and every other token stands for itself. A tree that the text is parsed to says
the same, in the same order. Only where a construct is folded does an unsupported part stand for a
stretch of the text, which is then all of the construct. -/

namespace Formula

open Token (Kind)
open Grammar
open Formula.Expr (Item readingAll)

/-- Whether an item is a literal or a name. -/
def Expr.Item.isOperand : Item → Bool
  | .constant _ | .parameter _ | .function _ => true
  | .operator _ | .unsupported _ => false

/-! ## Reading tokens -/

/-- What a symbol says: parentheses and commas nothing, any other symbol itself. -/
def Symbol.wording : Symbol → List Item
  | .openParen | .closeParen | .comma => []
  | symbol => [.operator symbol.text]

/-- An operator says itself. -/
theorem Symbol.wording_of_operator {symbol : Symbol}
    (h : symbol.level?.isSome ∨ symbol ∈ [.minus, .bang, .plus, .tilde]) :
    symbol ≠ .dot ∧ symbol.wording = [.operator symbol.text] := by
  cases symbol <;> first | exact ⟨by decide, rfl⟩ | exact absurd h (by decide)

/-- The literals that are spelled like names. -/
def literal? : String → Option Item
  | "true" => some (.constant (.boolean true))
  | "false" => some (.constant (.boolean false))
  | "null" => some (.unsupported Construct.nullLiteral.explanation)
  | _ => none

theorem literal?_eq_none {name : String} (h : isKeyword name = false) : literal? name = none := by
  unfold literal?
  split <;> first | rfl | cases h

/-- The names that follow, each behind a dot, and what is left. -/
def takeMembers : List Kind → List String × List Kind
  | .symbol .dot :: .name name :: rest => (name :: (takeMembers rest).1, (takeMembers rest).2)
  | rest => ([], rest)

theorem length_takeMembers_le (kinds : List Kind) :
    (takeMembers kinds).2.length ≤ kinds.length := by
  fun_induction takeMembers kinds with
  | case1 name rest ih =>
    simp only [List.length_cons]
    omega
  | case2 => exact Nat.le_refl _

/-- The members of a dotted name are those that can be taken. -/
theorem takeMembers_eq {input rest : List Kind} {names : List String} (h : Members input names rest)
    (whole : startsMember rest = false) : takeMembers input = (names, rest) := by
  induction h with
  | done rest =>
    unfold takeMembers
    split
    · cases whole
    · rfl
  | more name others ih => rw [takeMembers, ih whole]

/-- What a dotted name says: a function, if its arguments come next, otherwise a parameter. -/
def dottedWording (names : List String) (rest : List Kind) : Item :=
  if rest.head? = some (.symbol .openParen) then .function (String.intercalate "." names)
  else .parameter (String.intercalate "." names)

/-- What tokens say, in order. -/
def wording : List Kind → List Item
  | [] => []
  | .number value :: rest => .constant (.number value) :: wording rest
  | .string value :: rest => .constant (.string value) :: wording rest
  | .character :: rest => .unsupported Construct.characterLiteral.explanation :: wording rest
  | .name name :: rest =>
    match literal? name with
    | some item => item :: wording rest
    | none => dottedWording (name :: (takeMembers rest).1) (takeMembers rest).2 ::
        wording (takeMembers rest).2
  -- a member of something other than a name
  | .symbol .dot :: .name name :: rest =>
    .operator Symbol.dot.text :: .parameter name :: wording rest
  | .symbol symbol :: rest => symbol.wording ++ wording rest
  termination_by kinds => kinds.length
  decreasing_by
    all_goals simp only [List.length_cons]
    all_goals have hrest := length_takeMembers_le rest
    all_goals omega

theorem wording_symbol {symbol : Symbol} (h : symbol ≠ .dot) (rest : List Kind) :
    wording (.symbol symbol :: rest) = symbol.wording ++ wording rest := by
  rw [wording]
  exact fun _ _ _ hdot => h hdot

theorem wording_literal {name : String} {item : Item} (h : literal? name = some item)
    (rest : List Kind) : wording (.name name :: rest) = item :: wording rest := by
  rw [wording, h]

theorem wording_name {name : String} {names : List String} {input rest : List Kind}
    (word : isKeyword name = false) (dotted : Members input names rest)
    (whole : startsMember rest = false) :
    wording (.name name :: input) = dottedWording (name :: names) rest :: wording rest := by
  rw [wording, literal?_eq_none word, takeMembers_eq dotted whole]

/-! ## Stretches that are folded -/

/-- The first list is the second one with an unsupported part in the place of
    each of some stretches. -/
inductive Folded : List Item → List Item → Prop where
  | nil : Folded [] []
  | keep {items said : List Item} (item : Item) (others : Folded items said) :
      Folded (item :: items) (item :: said)
  | fold {items said : List Item} (explanation : String) (stretch : List Item)
      (others : Folded items said) : Folded (.unsupported explanation :: items) (stretch ++ said)

namespace Folded

variable {items others said : List Item}

theorem refl (items : List Item) : Folded items items := by
  induction items with
  | nil => exact .nil
  | cons item items ih => exact .keep item ih

theorem append (h : Folded items said) {said' : List Item} (h' : Folded others said') :
    Folded (items ++ others) (said ++ said') := by
  induction h with
  | nil => exact h'
  | keep item _ ih => exact .keep item ih
  | fold explanation stretch _ ih =>
    rw [List.append_assoc]
    exact .fold explanation stretch ih

/-- Whatever it is, a stretch can be folded as a whole. -/
theorem whole (explanation : String) (said : List Item) :
    Folded [.unsupported explanation] said := by
  simpa using Folded.fold explanation said .nil

/-- What two lists fold together is in two parts as well. -/
theorem split (h : Folded (items ++ others) said) :
    ∃ front behind, said = front ++ behind ∧ Folded items front ∧ Folded others behind := by
  induction items generalizing said with
  | nil => exact ⟨[], said, rfl, .nil, h⟩
  | cons item items ih =>
    cases h with
    | keep _ h =>
      obtain ⟨front, behind, rfl, hfront, hbehind⟩ := ih h
      exact ⟨item :: front, behind, rfl, .keep item hfront, hbehind⟩
    | fold explanation stretch h =>
      obtain ⟨front, behind, rfl, hfront, hbehind⟩ := ih h
      exact ⟨stretch ++ front, behind, by simp, .fold explanation stretch hfront, hbehind⟩

/-- Stretches may be folded with unsupported parts in them. -/
theorem trans (h : Folded items others) (h' : Folded others said) : Folded items said := by
  induction h generalizing said with
  | nil => exact h'
  | keep item _ ih =>
    cases h' with
    | keep _ h' => exact .keep item (ih h')
    | fold explanation stretch h' => exact .fold explanation stretch (ih h')
  | fold explanation stretch _ ih =>
    -- what the stretch was folded from is folded instead
    obtain ⟨front, behind, rfl, -, hbehind⟩ := split h'
    exact .fold explanation front (ih hbehind)

/-- Literals and names are neither added nor moved. -/
theorem sublist (h : Folded items said) :
    (items.filter Item.isOperand).Sublist (said.filter Item.isOperand) := by
  induction h with
  | nil => exact .slnil
  | keep item _ ih =>
    rw [List.filter_cons, List.filter_cons]
    split
    · exact ih.cons_cons item
    · exact ih
  | fold explanation stretch _ ih =>
    rw [List.filter_append, List.filter_cons_of_neg (by simp [Item.isOperand])]
    exact ih.trans (List.sublist_append_right _ _)

/-- Where nothing is unsupported, nothing is folded. -/
theorem eq (h : Folded items said) (hsupported : ∀ explanation, .unsupported explanation ∉ items) :
    items = said := by
  induction h with
  | nil => rfl
  | keep item _ ih => rw [ih fun explanation hmem => hsupported explanation (.tail _ hmem)]
  | fold explanation stretch _ _ => exact absurd (.head _) (hsupported explanation)

end Folded

/-! ## What a phrase says -/

/-- Behind the front, what the input says up to the rest makes the items, with
    some stretches folded. -/
def Conveys (front items : List Item) (input rest : List Kind) : Prop :=
  ∃ said, wording input = said ++ wording rest ∧ Folded items (front ++ said)

namespace Conveys

variable {front items others : List Item} {input middle rest : List Kind}

theorem refl (items : List Item) (rest : List Kind) : Conveys items items rest rest :=
  ⟨[], rfl, by simpa using Folded.refl items⟩

/-- One token, or one dotted name. -/
theorem single {item : Item} (h : wording input = item :: wording rest) :
    Conveys [] [item] input rest :=
  ⟨[item], h, .refl _⟩

theorem trans (h : Conveys front items input middle) (h' : Conveys items others middle rest) :
    Conveys front others input rest := by
  obtain ⟨said, hsaid, hitems⟩ := h
  obtain ⟨said', hsaid', hothers⟩ := h'
  refine ⟨said ++ said', by rw [hsaid, hsaid', List.append_assoc], ?_⟩
  rw [← List.append_assoc]
  exact hothers.trans (hitems.append (.refl said'))

theorem append (h : Conveys front items input middle) (h' : Conveys [] others middle rest) :
    Conveys front (items ++ others) input rest := by
  obtain ⟨said, hsaid, hothers⟩ := h'
  exact h.trans ⟨said, hsaid, (Folded.refl items).append hothers⟩

theorem start {s : Symbol} (hdot : s ≠ .dot) (front : List Item) (rest : List Kind) :
    Conveys front (front ++ s.wording) (.symbol s :: rest) rest :=
  ⟨s.wording, wording_symbol hdot rest, .refl _⟩

theorem symbol {s : Symbol} (h : Conveys front items input (.symbol s :: rest)) (hdot : s ≠ .dot) :
    Conveys front (items ++ s.wording) input rest :=
  h.trans (start hdot items rest)

/-- A member of something other than a name is folded with what it is a member of. -/
theorem member {explanation : String} (name : String) (front : List Item) (rest : List Kind) :
    Conveys front [.unsupported explanation] (.symbol .dot :: .name name :: rest) rest :=
  ⟨[.operator Symbol.dot.text, .parameter name], by rw [wording]; rfl, .whole explanation _⟩

/-- All that there is so far is folded. -/
theorem folded (h : Conveys front items input rest) (explanation : String) :
    Conveys front [.unsupported explanation] input rest := by
  obtain ⟨said, hsaid, -⟩ := h
  exact ⟨said, hsaid, .whole explanation _⟩

end Conveys

/-! ## Types -/

theorem Conveys.brackets {front items : List Item} {input middle rest : List Kind}
    (h : Conveys front items input middle) (brackets : Brackets middle rest) :
    ∃ others, Conveys front others input rest := by
  induction brackets generalizing items with
  | done rest => exact ⟨items, h⟩
  | more others ih => exact ih ((h.symbol (by decide)).symbol (by decide))

theorem Conveys.question {front items : List Item} {input middle rest : List Kind}
    (h : Conveys front items input middle) (mark : Question middle rest) :
    ∃ others, Conveys front others input rest := by
  cases mark with
  | absent => exact ⟨items, h⟩
  | present => exact ⟨_, h.symbol (by decide)⟩

/-- The type of a conversion has words of its own, whatever they are. -/
theorem exists_conveys_of_conversion {input operand : List Kind} (h : Conversion input operand) :
    ∃ items, Conveys [] items input operand := by
  cases h with
  | intro word dotted mark brackets starts =>
    have hopen := Conveys.start (s := .openParen) (by decide) []
    have hname := (hopen _).append (.single (wording_name word dotted (mark.startsMember brackets)))
    obtain ⟨_, hmark⟩ := hname.question mark
    obtain ⟨_, hbrackets⟩ := hmark.brackets brackets
    exact ⟨_, hbrackets.symbol (by decide)⟩

/-! ## What the grammar conveys -/

namespace Grammar

/-- What a phrase says is what its part of the input says: links and suffixes behind the tree that
    they start from, a list of arguments with its closing symbol. -/
def Phrase.Conveyed : Phrase → List Kind → List Kind → Prop
  | .expression e | .chain _ e | .unary e | .primary e => Conveys [] e.reading
  | .links _ left e | .suffixes left e => Conveys left.reading e.reading
  | .arguments close es | .items close es => fun input rest =>
    close ≠ .dot → Conveys [] (readingAll es ++ close.wording) input rest

/-- Every rule of the grammar passes on what its parts say, or folds it. -/
theorem Derivation.conveyed {phrase : Phrase} {input rest : List Kind}
    (d : Derivation phrase input rest) : phrase.Conveyed input rest := by
  induction d with
  | plain condition ih => exact ih
  | conditional condition ifTrue ifFalse ihc iht ihf =>
    have hall := (((ihc.symbol (by decide)).append iht).symbol (by decide)).append ihf
    simpa [Phrase.Conveyed, Expr.reading, Symbol.wording, Symbol.text] using hall
  | chain inner first others ihfirst ihothers => exact ihfirst.trans ihothers
  | operand unary ih => exact ih
  | last level e rest => exact .refl _ _
  | bare e rest => exact .refl _ _
  | @link level left right e input middle rest operator binds next others ihnext ihothers =>
    obtain ⟨hdot, hwording⟩ := operator.wording_of_operator (.inl (by simp [binds]))
    have hright := (Conveys.start hdot left.reading input).append ihnext
    rw [hwording, List.append_assoc] at hright
    -- this is what the link says, and the other links go on from there
    exact hright.trans ihothers
  | @prefixed e input rest operator sign operand ih =>
    obtain ⟨hdot, hwording⟩ := operator.wording_of_operator (.inr sign)
    have hoperand := (Conveys.start hdot [] input).append ih
    rwa [hwording] at hoperand
  | conversion type converted ih =>
    obtain ⟨items, htype⟩ := exists_conveys_of_conversion type
    exact (htype.append ih).folded _
  | value unconverted primary suffixes ihprimary ihsuffixes => exact ihprimary.trans ihsuffixes
  | number value rest => exact .single (by rw [wording])
  | string value rest => exact .single (by rw [wording])
  | character rest => exact .single (by rw [wording])
  | trueLiteral rest => exact .single (wording_literal rfl rest)
  | falseLiteral rest => exact .single (wording_literal rfl rest)
  | nullLiteral rest => exact .single (wording_literal rfl rest)
  | parameter name word whole uncalled =>
    have hname := wording_name word (.done _) whole
    rw [dottedWording, if_neg uncalled] at hname
    exact .single hname
  | member name word dotted several whole uncalled =>
    exact (Conveys.single (wording_name word dotted whole)).folded _
  | call name word dotted arguments ih =>
    have hname := wording_name word dotted rfl
    rw [dottedWording, List.head?_cons, if_pos rfl] at hname
    have hall := ((Conveys.single hname).symbol (by decide)).append (ih (by decide))
    simpa [Phrase.Conveyed, Expr.reading, Symbol.wording] using hall
  | parenthesis inner ih =>
    have hopen := Conveys.start (s := .openParen) (by decide) []
    have hall := ((hopen _).append ih).symbol (by decide)
    simpa [Phrase.Conveyed, Symbol.wording] using hall
  | @invocation operand e es input middle rest arguments others iharguments ihothers =>
    have hopen := Conveys.start (s := .openParen) (by decide) operand.reading input
    exact ((hopen.append (iharguments (by decide))).folded _).trans ihothers
  | @element operand e es input middle rest arguments others iharguments ihothers =>
    have hopen := Conveys.start (s := .openBracket) (by decide) operand.reading input
    exact ((hopen.append (iharguments (by decide))).folded _).trans ihothers
  | @access operand e input rest name others ih =>
    exact (Conveys.member name operand.reading input).trans ih
  | empty close rest => exact fun hclose => Conveys.start hclose [] rest
  | listed items ih => exact ih
  | only item ih =>
    intro hclose
    simpa [readingAll] using ih.symbol hclose
  | comma item others ihitem ihothers =>
    intro hclose
    have hall := (ihitem.symbol (by decide)).append (ihothers hclose)
    simpa [readingAll, Symbol.wording] using hall

end Grammar

/-! ## What a tree says -/

namespace Expr

/-- The literal or the name that a node adds to what its tree says. -/
def operand? : Expr → Option Item
  | .constant value => some (.constant value)
  | .parameter name => some (.parameter name)
  | .call name _ => some (.function name)
  | _ => none

mutual

/-- A walk comes to the literals and names of a tree in the order in which the tree says them. -/
theorem operands_reading :
    (e : Expr) → e.reading.filter Item.isOperand = e.preorder.filterMap operand?
  | .constant value => rfl
  | .parameter name => rfl
  | .unary operator operand => by
    simp [reading, preorder, Item.isOperand, List.filterMap_cons, operand?,
      operands_reading operand]
  | .binary operator left right => by
    simp [reading, preorder, Item.isOperand, List.filterMap_cons, operand?, operands_reading left,
      operands_reading right]
  | .conditional condition ifTrue ifFalse => by
    simp [reading, preorder, Item.isOperand, List.filterMap_cons, operand?,
      operands_reading condition, operands_reading ifTrue, operands_reading ifFalse]
  | .call name arguments => by
    simp [reading, preorder, List.filter_cons, Item.isOperand, operand?,
      operands_readingAll arguments]
  | .unsupported explanation => rfl

theorem operands_readingAll :
    (es : List Expr) → (readingAll es).filter Item.isOperand = (preorderAll es).filterMap operand?
  | [] => rfl
  | e :: es => by simp [readingAll, preorderAll, operands_reading e, operands_readingAll es]

end

theorem mem_readingAll_iff {item : Item} {es : List Expr} :
    item ∈ readingAll es ↔ ∃ part ∈ es, item ∈ part.reading := by
  induction es with
  | nil => simp [readingAll]
  | cons e es ih => simp [readingAll, ih]

/-- What a tree says to be unsupported is a part that a walk comes to. -/
theorem mem_nodes_of_mem_reading {e : Expr} {explanation : String}
    (h : .unsupported explanation ∈ e.reading) : .unsupported explanation ∈ e.nodes := by
  induction e using induction_parts with
  | step e ih =>
    have hpart (part : Expr) (hpart : part ∈ e.parts)
        (h : .unsupported explanation ∈ part.reading) :
        .unsupported explanation ∈ e.nodes := mem_nodes_of_part hpart (ih part hpart h)
    cases e with
    | constant value => simp [reading] at h
    | parameter name => simp [reading] at h
    | unary operator operand => exact hpart operand (by simp [parts]) (by simpa [reading] using h)
    | binary operator left right =>
      rw [reading, List.mem_append] at h
      rcases h with h | h
      · exact hpart left (by simp [parts]) h
      · exact hpart right (by simp [parts]) (by simpa using h)
    | conditional condition ifTrue ifFalse =>
      simp only [reading, List.mem_append, List.mem_cons, reduceCtorEq, false_or] at h
      rcases h with h | h | h
      · exact hpart condition (by simp [parts]) h
      · exact hpart ifTrue (by simp [parts]) h
      · exact hpart ifFalse (by simp [parts]) h
    | call name arguments =>
      simp only [reading, List.mem_cons, reduceCtorEq, false_or, mem_readingAll_iff] at h
      obtain ⟨part, hmem, h⟩ := h
      exact hpart part hmem h
    | unsupported other =>
      simp only [reading, List.mem_singleton, Item.unsupported.injEq] at h
      rw [h]
      exact mem_nodes_self _

end Expr

/-! ## Whole texts -/

/-- A tree that a text is parsed to says what the text says, with some stretches folded. -/
theorem folded_of_parseWith {text : String} {tokens : List Token} {limit : Nat} {e : Expr}
    (htokens : Token.tokenize text = .ok tokens) (h : parseWith ⟨limit⟩ text = .ok e) :
    Folded e.reading (wording (tokens.map Token.kind)) := by
  obtain ⟨d, -⟩ := (parseWith_eq_ok_iff_nesting htokens limit e).1 h
  obtain ⟨said, hsaid, hfolded⟩ := d.conveyed
  rw [hsaid, wording, List.append_nil]
  exact hfolded

/-- **No operand is lost, said twice or moved.** The literals and names that a walk of a parsed tree
    comes to are literals and names of the text, in the order of the text. If no part of the tree is
    unsupported, the tree says exactly what the text says. -/
theorem parseWith_says {text : String} {limit : Nat} {e : Expr}
    (h : parseWith ⟨limit⟩ text = .ok e) :
    ∃ tokens, Token.tokenize text = .ok tokens ∧
      (e.nodes.filterMap Expr.operand?).Sublist
        ((wording (tokens.map Token.kind)).filter Item.isOperand) ∧
      (e.unsupportedParts = [] → e.reading = wording (tokens.map Token.kind)) := by
  obtain ⟨tokens, htokens⟩ := exists_tokens_of_parseWith h
  have hfolded := folded_of_parseWith htokens h
  refine ⟨tokens, htokens, ?_, fun hnone => ?_⟩
  · rw [Expr.nodes_eq_preorder, ← Expr.operands_reading]
    exact hfolded.sublist
  · refine hfolded.eq fun explanation hmem => ?_
    have hpart := Expr.mem_unsupportedParts_iff.2 (Expr.mem_nodes_of_mem_reading hmem)
    rw [hnone] at hpart
    cases hpart

/-- Parentheses around a branch, and a dotted name that is called. -/
theorem parseWith_says_conditional :
    ∃ tokens, Token.tokenize "x.f(a,-b)?true:(c)" = .ok tokens ∧
      [Item.function "x.f", .parameter "a", .parameter "b", .constant (.boolean true),
        .parameter "c"].Sublist ((wording (tokens.map Token.kind)).filter Item.isOperand) ∧
      [.function "x.f", .parameter "a", .operator "-", .parameter "b", .operator "?",
        .constant (.boolean true), .operator ":", .parameter "c"] =
          wording (tokens.map Token.kind) := by
  have hparse : parseWith ⟨9⟩ "x.f(a,-b)?true:(c)" = .ok (.conditional
      (.call "x.f" [.parameter "a", .unary "-" (.parameter "b")])
      (.constant (.boolean true)) (.parameter "c")) := by
    decide +kernel
  obtain ⟨tokens, htokens, hsublist, heq⟩ := parseWith_says hparse
  refine ⟨tokens, htokens, ?_, heq ?_⟩
  · rw [Expr.nodes_eq_preorder] at hsublist
    exact hsublist
  · rw [Expr.unsupportedParts, Expr.nodes_eq_preorder]
    rfl

end Formula
