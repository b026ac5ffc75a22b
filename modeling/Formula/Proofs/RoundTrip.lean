import Formula.Proofs.Display
import Formula.Proofs.Normal
import Formula.Proofs.Parenthesis
import Formula.Proofs.Recognition

set_option autoImplicit false

/-! # A rendered tree is parsed back

A tree that a formula can spell is equal to the one that its rendered text is parsed to. Operands
are rendered so that each is a unary expression by itself; a conditional is not one, so it may only
stand alone: as the whole tree, as an argument or as a part of another conditional. -/

namespace Formula

open Grammar Token

/-! ## Trees that can be spelled -/

/-- Names with a dot between them, of which the first is no keyword. -/
def IsFunctionName (name : String) : Prop :=
  ∃ first others, name = String.intercalate "." (first :: others) ∧
    isIdentifier first.toList = true ∧ isKeyword first = false ∧
    ∀ other ∈ others, isIdentifier other.toList = true

namespace Expr

mutual

/-- Whether a formula can spell a tree that stands alone, or one that does not. -/
def Spellable (alone : Bool) : Expr → Prop
  | .constant (.number d) => 0 ≤ d.signed
  | .constant (.string s) => ∀ c ∈ s.toList, c ≠ '"' ∧ c ≠ '\\' ∧ c ≠ '\n'
  | .constant (.boolean _) => True
  | .parameter name => isIdentifier name.toList = true ∧ isKeyword name = false
  | .unary operator operand =>
    (∃ symbol : Symbol, symbol.text = operator ∧ symbol ∈ [.minus, .bang, .plus, .tilde]) ∧
      operand.Spellable false
  | .binary operator left right =>
    (∃ (symbol : Symbol) (level : Nat), symbol.text = operator ∧ symbol.level? = some level) ∧
      left.Spellable false ∧ right.Spellable false
  | .conditional condition ifTrue ifFalse =>
    alone = true ∧ condition.Spellable true ∧ ifTrue.Spellable true ∧ ifFalse.Spellable true
  | .call name arguments => IsFunctionName name ∧ AllSpellable arguments
  | .unsupported _ => False

/-- Whether a formula can spell trees that each stand alone. -/
def AllSpellable : List Expr → Prop
  | [] => True
  | e :: es => e.Spellable true ∧ AllSpellable es

end

end Expr

/-! ## What a text denotes -/

/-- The tokens of the text derive the phrase in front of whatever may follow. -/
def Denotes (text : List Char) (phrase : Phrase) (Follow : List Kind → Prop) : Prop :=
  ∃ kinds, Lexes text kinds ∧
    ∀ rest, Follow rest → Nonempty (Derivation phrase (kinds ++ rest) rest)

/-- What may follow a rendered tree that stands alone: nothing, a closing parenthesis or a comma. -/
def EndsWhole (rest : List Kind) : Prop :=
  ∀ kind ∈ rest.head?, kind = .symbol .closeParen ∨ kind = .symbol .comma

/-- What may follow a rendered operand: this or a binary operator. -/
def EndsOperand (rest : List Kind) : Prop :=
  ∀ kind ∈ rest.head?, kind = .symbol .closeParen ∨ kind = .symbol .comma ∨
    ∃ operator level, kind = .symbol operator ∧ operator.level? = some level

theorem endsWhole_nil : EndsWhole [] := by
  intro kind hkind
  cases hkind

theorem EndsWhole.endsOperand {rest : List Kind} (h : EndsWhole rest) : EndsOperand rest := by
  intro kind hkind
  rcases h kind hkind with hclose | hcomma
  · exact .inl hclose
  · exact .inr (.inl hcomma)

theorem endsOperand_operator {operator : Symbol} {level : Nat}
    (binds : operator.level? = some level) (rest : List Kind) :
    EndsOperand (.symbol operator :: rest) := by
  intro kind hkind
  obtain rfl := Option.some.inj hkind
  exact .inr (.inr ⟨operator, level, rfl, binds⟩)

theorem EndsOperand.startsOperand {rest : List Kind} (h : EndsOperand rest) :
    ∀ kind ∈ rest.head?, kind.startsOperand = false := by
  intro kind hkind
  rcases h kind hkind with rfl | rfl | ⟨operator, level, rfl, binds⟩
  · rfl
  · rfl
  · cases operator <;> first | rfl | cases binds

theorem EndsOperand.stops {rest : List Kind} (h : EndsOperand rest) : Stops levelCount rest := by
  match rest, h with
  | [], _ => exact stops_nil _
  | kind :: rest, h =>
    rcases h kind rfl with rfl | rfl | ⟨operator, level, rfl, binds⟩
    · exact stops_symbol _ _ rfl rfl
    · exact stops_symbol _ _ rfl rfl
    · exact stops_binary binds _

/-- A phrase that stands alone is an expression, any other an operand. -/
def standing (alone : Bool) (e : Expr) : Phrase := if alone then .expression e else .unary e

/-- What may follow a phrase that stands alone, or one that does not. -/
def EndsStanding (alone : Bool) : List Kind → Prop := if alone then EndsWhole else EndsOperand

/-- A unary expression is an expression. -/
theorem Denotes.whole {text : List Char} {e : Expr} {Follow : List Kind → Prop}
    (h : Denotes text (.unary e) Follow) : Denotes text (.expression e) Follow := by
  obtain ⟨kinds, hlexes, hderivation⟩ := h
  refine ⟨kinds, hlexes, fun rest hrest => ?_⟩
  obtain ⟨d⟩ := hderivation rest hrest
  exact d.nonempty_expression

/-- An operand may also stand alone. -/
theorem Denotes.standing {text : List Char} {e : Expr} (h : Denotes text (.unary e) EndsOperand)
    (alone : Bool) : Denotes text (standing alone e) (EndsStanding alone) := by
  cases alone with
  | false => exact h
  | true =>
    obtain ⟨kinds, hlexes, hderivation⟩ := h.whole
    exact ⟨kinds, hlexes, fun rest hrest => hderivation rest (EndsWhole.endsOperand hrest)⟩

/-! ## Operands without operators -/

/-- A primary expression that does not start with a parenthesis is an operand. -/
theorem denotes_primary {text : List Char} {kind : Kind} {kinds : List Kind} {e : Expr}
    (hlexes : Lexes text (kind :: kinds)) (hkind : kind ≠ .symbol .openParen)
    (hprimary : ∀ rest, EndsOperand rest →
      Nonempty (Derivation (.primary e) (kind :: (kinds ++ rest)) rest)) :
    Denotes text (.unary e) EndsOperand := by
  refine ⟨kind :: kinds, hlexes, fun rest hrest => ?_⟩
  obtain ⟨d⟩ := hprimary rest hrest
  have hunconverted : ∀ operand, ¬ Conversion (kind :: (kinds ++ rest)) operand := by
    intro operand h
    exact hkind (Option.some.inj h.head?_eq)
  exact ⟨.value hunconverted d (.bare e rest)⟩

theorem denotes_number {d : Decimal} (h : 0 ≤ d.signed) :
    Denotes d.normalize.write.toList (.unary (.constant (.number d.normalize))) EndsOperand :=
  denotes_primary (lexes_write (d.negative_normalize h)) (by simp) fun rest _ => ⟨.number _ rest⟩

theorem denotes_string {s : String} (h : ∀ c ∈ s.toList, c ≠ '"' ∧ c ≠ '\\' ∧ c ≠ '\n') :
    Denotes ('"' :: (s.toList ++ ['"'])) (.unary (.constant (.string s))) EndsOperand :=
  denotes_primary (lexes_quoted h) (by simp) fun rest _ => ⟨.string s rest⟩

theorem denotes_boolean (b : Bool) :
    Denotes (Value.display (.boolean b)).toList (.unary (.constant (.boolean b))) EndsOperand := by
  cases b with
  | false =>
    exact denotes_primary (lexes_identifier rfl) (by simp) fun rest _ => ⟨.falseLiteral rest⟩
  | true => exact denotes_primary (lexes_identifier rfl) (by simp) fun rest _ => ⟨.trueLiteral rest⟩

theorem denotes_parameter {name : String} (hname : isIdentifier name.toList = true)
    (hword : isKeyword name = false) :
    Denotes name.toList (.unary (.parameter name)) EndsOperand :=
  denotes_primary (lexes_identifier hname) (by simp) fun _ hrest =>
    ⟨.parameter name hword hrest.stops.startsMember hrest.stops.uncalled⟩

/-! ## Operators -/

theorem Token.Lexes.between {front other : List Char} {kinds others : List Kind} (symbol : Symbol)
    (h : Lexes front kinds) (hother : Lexes other others) :
    Lexes (front ++ ' ' :: (symbol.text.toList ++ ' ' :: other))
      (kinds ++ .symbol symbol :: others) := by
  have hbehind := (lexes_symbol symbol).append (separated_cons.2 rfl) (hother.blank (c := ' ') rfl)
  exact h.append (separated_cons.2 rfl) (hbehind.blank rfl)

/-- An operator in front of an operand. -/
theorem denotes_prefix {text : List Char} {e : Expr} {operator : Symbol}
    (sign : operator ∈ [.minus, .bang, .plus, .tilde]) (h : Denotes text (.unary e) EndsOperand) :
    Denotes (operator.text.toList ++ ' ' :: text)
      (.unary (.unary operator.text e)) EndsOperand := by
  obtain ⟨kinds, hlexes, hderivation⟩ := h
  refine ⟨.symbol operator :: kinds,
    (lexes_symbol operator).append (separated_cons.2 rfl) (hlexes.blank rfl), fun rest hrest => ?_⟩
  obtain ⟨d⟩ := hderivation rest hrest
  exact ⟨.prefixed operator sign d⟩

/-- An expression in parentheses that no conversion is made of. -/
theorem denotes_parenthesis {text : List Char} {kinds : List Kind} {e : Expr}
    {Follow : List Kind → Prop} (hlexes : Lexes text kinds)
    (d : Derivation (.expression e) kinds [])
    (hfollow : ∀ rest, Follow rest → ∀ kind ∈ rest.head?, ¬ StartsConverted kinds kind) :
    Denotes ('(' :: (text ++ [')'])) (.unary e) Follow := by
  refine ⟨.symbol .openParen :: (kinds ++ [.symbol .closeParen]), hlexes.parenthesis lexes_nil,
    fun rest hrest => ?_⟩
  rw [List.cons_append, List.append_assoc]
  exact d.nonempty_operand (hfollow rest hrest)

/-- No type has a binary operator in it. -/
theorem isTypeWord_operator {operator : Symbol} {level : Nat}
    (binds : operator.level? = some level) :
    isTypeWord (.symbol operator) = false := by
  cases operator <;> first | rfl | cases binds

/-- Two operands with an operator between them, in parentheses. -/
theorem denotes_binary {left right : List Char} {l r : Expr} {operator : Symbol} {level : Nat}
    (binds : operator.level? = some level) (hleft : Denotes left (.unary l) EndsOperand)
    (hright : Denotes right (.unary r) EndsOperand) :
    Denotes ('(' :: ((left ++ ' ' :: (operator.text.toList ++ ' ' :: right)) ++ [')']))
      (.unary (.binary operator.text l r)) EndsOperand := by
  obtain ⟨leftKinds, hleftLexes, hleftDerivation⟩ := hleft
  obtain ⟨rightKinds, hrightLexes, hrightDerivation⟩ := hright
  obtain ⟨l'⟩ := hleftDerivation (.symbol operator :: rightKinds) (endsOperand_operator binds _)
  obtain ⟨r'⟩ := hrightDerivation [] endsWhole_nil.endsOperand
  rw [List.append_nil] at r'
  obtain ⟨d⟩ := l'.nonempty_binary binds r'
  refine denotes_parenthesis (hleftLexes.between operator hrightLexes) d ?_
  rintro rest hrest kind hkind (hstarts | ⟨-, hpredefined⟩)
  · exact absurd hstarts (by simp [EndsOperand.startsOperand hrest kind hkind])
  · -- a sign behind the parenthesis joins two operands, as what stands in it is no type
    have hword := hpredefined.isType.isTypeWord (.symbol operator) (by simp)
    rw [isTypeWord_operator binds] at hword
    cases hword

/-! ## Conditionals -/

/-- What may follow any parenthesis: nothing that can be the operand of a conversion. -/
def EndsParenthesis (rest : List Kind) : Prop :=
  ∀ kind ∈ rest.head?, kind.startsOperand = false ∧ kind.isSign = false

theorem EndsWhole.endsParenthesis {rest : List Kind} (h : EndsWhole rest) :
    EndsParenthesis rest := by
  intro kind hkind
  rcases h kind hkind with rfl | rfl <;> exact ⟨rfl, rfl⟩

/-- A tree that stands alone in its parentheses. -/
theorem Denotes.parenthesis {text : List Char} {e : Expr}
    (h : Denotes text (.expression e) EndsWhole) :
    Denotes ('(' :: (text ++ [')'])) (.unary e) EndsParenthesis := by
  obtain ⟨kinds, hlexes, hderivation⟩ := h
  obtain ⟨d⟩ := hderivation [] endsWhole_nil
  rw [List.append_nil] at d
  refine denotes_parenthesis hlexes d ?_
  rintro rest hrest kind hkind (hstarts | ⟨hsign, -⟩)
  · exact absurd hstarts (by simp [(hrest kind hkind).1])
  · exact absurd hsign (by simp [(hrest kind hkind).2])

theorem denotes_conditional {condition ifTrue ifFalse : List Char} {c t f : Expr}
    (hcondition : Denotes condition (.expression c) EndsWhole)
    (htrue : Denotes ifTrue (.expression t) EndsWhole)
    (hfalse : Denotes ifFalse (.expression f) EndsWhole) :
    Denotes (('(' :: (condition ++ [')'])) ++ ' ' :: (Symbol.question.text.toList ++ ' ' ::
        (('(' :: (ifTrue ++ [')'])) ++ ' ' :: (Symbol.colon.text.toList ++ ' ' ::
          ('(' :: (ifFalse ++ [')']))))))
      (.expression (.conditional c t f)) EndsWhole := by
  obtain ⟨conditionKinds, hconditionLexes, hconditionDerivation⟩ := hcondition.parenthesis
  obtain ⟨trueKinds, htrueLexes, htrueDerivation⟩ := htrue.parenthesis.whole
  obtain ⟨falseKinds, hfalseLexes, hfalseDerivation⟩ := hfalse.parenthesis.whole
  refine ⟨_, hconditionLexes.between .question (htrueLexes.between .colon hfalseLexes),
    fun rest hrest => ?_⟩
  -- neither `?` nor `:` makes a conversion of the parenthesis in front of it
  have hmark (symbol : Symbol) (hsymbol : symbol = .question ∨ symbol = .colon)
      (behind : List Kind) :
      EndsParenthesis (.symbol symbol :: behind) := by
    intro kind hkind
    obtain rfl := Option.some.inj hkind
    rcases hsymbol with rfl | rfl <;> exact ⟨rfl, rfl⟩
  simp only [List.append_assoc, List.cons_append]
  obtain ⟨c'⟩ := hconditionDerivation _ (hmark .question (.inl rfl) _)
  obtain ⟨t'⟩ := htrueDerivation _ (hmark .colon (.inr rfl) _)
  obtain ⟨f'⟩ := hfalseDerivation rest hrest.endsParenthesis
  obtain ⟨c'', -⟩ := c'.exists_chain (Nat.zero_le levelCount)
  exact ⟨.conditional c'' t' f'⟩

/-! ## Calls -/

theorem denotes_call {name : String} {text : List Char} {es : List Expr}
    (hname : IsFunctionName name)
    (h : Denotes text (.arguments .closeParen es) fun _ => True) :
    Denotes (name.toList ++ '(' :: text) (.unary (.call name es)) EndsOperand := by
  obtain ⟨first, others, rfl, hfirst, hword, hothers⟩ := hname
  obtain ⟨kinds, hlexes, hderivation⟩ := h
  have hall : Lexes ((String.intercalate "." (first :: others)).toList ++ '(' :: text)
      (.name first :: (memberKinds others ++ .symbol .openParen :: kinds)) :=
    lexes_dotted hfirst hothers (by simp [Numeral.isWordChar]) (.single rfl hlexes)
  refine denotes_primary hall (by simp) fun rest _ => ?_
  obtain ⟨d⟩ := hderivation rest trivial
  rw [List.append_assoc]
  exact ⟨.call first hword (members_memberKinds others _) d⟩

theorem denotes_empty : Denotes [')'] (.arguments .closeParen []) fun _ => True :=
  ⟨[.symbol .closeParen], .single rfl lexes_nil, fun rest _ => ⟨.empty .closeParen rest⟩⟩

theorem denotes_only {text : List Char} {e : Expr} (h : Denotes text (.expression e) EndsWhole) :
    Denotes (text ++ [')']) (.items .closeParen [e]) fun _ => True := by
  obtain ⟨kinds, hlexes, hderivation⟩ := h
  refine ⟨kinds ++ [.symbol .closeParen],
    hlexes.append (separated_cons.2 rfl) (.single rfl lexes_nil), fun rest _ => ?_⟩
  rw [List.append_assoc]
  obtain ⟨d⟩ := hderivation (.symbol .closeParen :: rest) (by simp [EndsWhole])
  exact ⟨.only d⟩

theorem denotes_comma {text others : List Char} {e : Expr} {es : List Expr}
    (h : Denotes text (.expression e) EndsWhole)
    (hothers : Denotes others (.items .closeParen es) fun _ => True) :
    Denotes (text ++ ',' :: ' ' :: others) (.items .closeParen (e :: es)) fun _ => True := by
  obtain ⟨kinds, hlexes, hderivation⟩ := h
  obtain ⟨otherKinds, hotherLexes, hotherDerivation⟩ := hothers
  refine ⟨kinds ++ .symbol .comma :: otherKinds,
    hlexes.append (separated_cons.2 rfl) (.single rfl (hotherLexes.blank rfl)), fun rest _ => ?_⟩
  rw [List.append_assoc]
  obtain ⟨d⟩ := hderivation (.symbol .comma :: (otherKinds ++ rest)) (by simp [EndsWhole])
  obtain ⟨d'⟩ := hotherDerivation rest trivial
  exact ⟨.comma d d'⟩

/-! ## Rendered trees -/

mutual

/-- A rendered tree denotes the tree with its numbers normalized. -/
theorem denotes_render (alone : Bool) (e : Expr) (h : e.Spellable alone) :
    Denotes e.render.toList (standing alone e.normalize) (EndsStanding alone) := by
  match e, h with
  | .constant (.number d), h => exact (denotes_number h).standing alone
  | .constant (.string s), h =>
    have htext : (Expr.constant (.string s)).render.toList = '"' :: (s.toList ++ ['"']) := by
      simp [Expr.render, Expr.renderValue]
    rw [htext]
    exact (denotes_string h).standing alone
  | .constant (.boolean b), h => exact (denotes_boolean b).standing alone
  | .parameter name, ⟨hname, hword⟩ => exact (denotes_parameter hname hword).standing alone
  | .unary operator operand, ⟨⟨symbol, htext, sign⟩, hoperand⟩ =>
    subst htext
    have hdenotes := denotes_prefix sign (denotes_render false operand hoperand)
    have htext : (Expr.unary symbol.text operand).render.toList =
        symbol.text.toList ++ ' ' :: operand.render.toList := by
      simp [Expr.render]
    rw [htext]
    exact hdenotes.standing alone
  | .binary operator left right, ⟨⟨symbol, level, htext, binds⟩, hleft, hright⟩ =>
    subst htext
    have hdenotes := denotes_binary binds (denotes_render false left hleft)
      (denotes_render false right hright)
    have htext : (Expr.binary symbol.text left right).render.toList =
        '(' :: ((left.render.toList ++ ' ' :: (symbol.text.toList ++ ' ' :: right.render.toList)) ++
          [')']) := by
      simp [Expr.render]
    rw [htext]
    exact hdenotes.standing alone
  | .conditional condition ifTrue ifFalse, ⟨halone, hcondition, htrue, hfalse⟩ =>
    subst halone
    have hdenotes := denotes_conditional (denotes_render true condition hcondition)
      (denotes_render true ifTrue htrue) (denotes_render true ifFalse hfalse)
    have htext : (Expr.conditional condition ifTrue ifFalse).render.toList =
        ('(' :: (condition.render.toList ++ [')'])) ++ ' ' :: (Symbol.question.text.toList ++ ' ' ::
          (('(' :: (ifTrue.render.toList ++ [')'])) ++ ' ' :: (Symbol.colon.text.toList ++ ' ' ::
            ('(' :: (ifFalse.render.toList ++ [')']))))) := by
      simp [Expr.render, Symbol.text]
    rw [htext]
    exact hdenotes
  | .call name arguments, ⟨hname, harguments⟩ =>
    have hdenotes := denotes_call hname (denotes_renderAll arguments harguments)
    have htext : (Expr.call name arguments).render.toList =
        name.toList ++ '(' :: ((Expr.renderAll arguments).toList ++ [')']) := by
      simp [Expr.render]
    rw [htext]
    exact hdenotes.standing alone

/-- The rendered arguments of a call with the parenthesis that closes them. -/
theorem denotes_renderAll (es : List Expr) (h : Expr.AllSpellable es) :
    Denotes ((Expr.renderAll es).toList ++ [')'])
      (.arguments .closeParen (Expr.normalizeAll es)) fun _ => True := by
  match es, h with
  | [], _ => exact denotes_empty
  | e :: es, ⟨he, hes⟩ =>
    obtain ⟨kinds, hlexes, hderivation⟩ := denotes_renderMore (denotes_render true e he) es hes
    rw [Expr.renderAll, String.toList_append, List.append_assoc]
    exact ⟨kinds, hlexes, fun rest hrest => (hderivation rest hrest).map .listed⟩

theorem denotes_renderMore {text : List Char} {first : Expr}
    (hfirst : Denotes text (.expression first) EndsWhole) (es : List Expr)
    (h : Expr.AllSpellable es) :
    Denotes (text ++ ((Expr.renderMore es).toList ++ [')']))
      (.items .closeParen (first :: Expr.normalizeAll es)) fun _ => True := by
  match es, h with
  | [], _ => exact denotes_only hfirst
  | e :: es, ⟨he, hes⟩ =>
    have hdenotes := denotes_comma hfirst (denotes_renderMore (denotes_render true e he) es hes)
    have htext : (Expr.renderMore (e :: es)).toList ++ [')'] =
        ',' :: ' ' :: (e.render.toList ++ ((Expr.renderMore es).toList ++ [')'])) := by
      simp [Expr.renderMore]
    rw [htext]
    exact hdenotes

end

/-- The rendered text of a tree that a formula can spell is parsed to a tree that is equal to it. -/
theorem parseWith_render {e : Expr} (h : e.Spellable true) {limit : Nat}
    (hlimit : e.render.length ≤ limit) :
    ∃ parsed, parseWith ⟨limit⟩ e.render = .ok parsed ∧ e.same parsed = true := by
  obtain ⟨kinds, ⟨tokens, htokens, rfl⟩, hderivation⟩ := denotes_render true e h
  obtain ⟨d⟩ := hderivation [] endsWhole_nil
  rw [List.append_nil] at d
  have hlength : tokens.length ≤ e.render.length := by
    rw [← String.length_toList]
    exact length_le_of_lex _ htokens
  exact ⟨e.normalize, parseWith_of_derivation htokens (Nat.le_trans hlength hlimit) d,
    e.same_normalize⟩

/-- A tree with a number that is not normalized, a string and a conditional among arguments. -/
def Expr.clamped : Expr :=
  .conditional
    (.binary "<" (.parameter "x") (.constant (.number ⟨false, 150, 2, by decide, by decide⟩)))
    (.unary "-" (.call "Math.Max" [.parameter "x", .conditional (.parameter "strict")
      (.constant (.boolean true)) (.constant (.string "at least 1"))]))
    (.constant (.string ""))

theorem parseWith_render_clamped :
    Expr.clamped.Spellable true ∧ Expr.clamped.render.length ≤ 99 ∧
      ∃ parsed, parseWith ⟨99⟩ Expr.clamped.render = .ok parsed ∧
        Expr.clamped.same parsed = true := by
  have hname : IsFunctionName "Math.Max" :=
    ⟨"Math", ["Max"], by decide, by decide, by decide, by decide⟩
  have hstrict : (Expr.parameter "strict").Spellable true := ⟨by decide, by decide⟩
  have hx (alone : Bool) : (Expr.parameter "x").Spellable alone := ⟨by decide, by decide⟩
  have h : Expr.clamped.Spellable true := by
    refine ⟨rfl, ⟨⟨.less, 6, rfl, rfl⟩, hx false, ?_⟩, ⟨⟨.minus, rfl, by decide⟩, hname, hx true,
      ⟨rfl, hstrict, trivial, ?_⟩, trivial⟩, ?_⟩
    · exact (by decide : (0 : Int) ≤ 150)
    · simp [Expr.Spellable]
    · simp [Expr.Spellable]
  have hlength : Expr.clamped.render.length ≤ 99 := by
    decide
  exact ⟨h, hlength, parseWith_render h hlength⟩

end Formula
