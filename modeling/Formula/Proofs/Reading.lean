import Formula.Expr.Basic

set_option autoImplicit false

/-! # Reading a tree in order

The parts of a tree in the order in which a formula shows them: an operator in front of its
operand or between its two, a condition, its mark and the branches with the colon between them, a
function in front of its arguments. Parentheses and commas are not part of the reading, so it does
not tell how the operators group. -/

namespace Formula.Expr

/-- What a reading consists of. The marks of a conditional are read as operators. -/
inductive Item where
  | constant (value : Value)
  | parameter (name : String)
  | operator (text : String)
  | function (name : String)
  | unsupported (explanation : String)

mutual

/-- What a tree says, in order. -/
def reading : Expr → List Item
  | .constant value => [.constant value]
  | .parameter name => [.parameter name]
  | .unary operator operand => .operator operator :: operand.reading
  | .binary operator left right => left.reading ++ .operator operator :: right.reading
  | .conditional condition ifTrue ifFalse =>
    condition.reading ++ .operator "?" :: (ifTrue.reading ++ .operator ":" :: ifFalse.reading)
  | .call name arguments => .function name :: readingAll arguments
  | .unsupported explanation => [.unsupported explanation]

/-- What several trees say, one after the other. -/
def readingAll : List Expr → List Item
  | [] => []
  | e :: es => e.reading ++ readingAll es

end

/-! ## The end of a reading -/

/-- The last item is there and is no operator. -/
def EndsInOperand (items : List Item) : Prop :=
  ∃ front last, items = front ++ [last] ∧ ∀ text, last ≠ .operator text

theorem EndsInOperand.append {items : List Item} (h : EndsInOperand items) (front : List Item) :
    EndsInOperand (front ++ items) := by
  obtain ⟨middle, last, rfl, hlast⟩ := h
  exact ⟨front ++ middle, last, by simp, hlast⟩

theorem EndsInOperand.cons {items : List Item} (h : EndsInOperand items) (item : Item) :
    EndsInOperand (item :: items) :=
  h.append [item]

theorem endsInOperand_singleton {item : Item} (h : ∀ text, item ≠ .operator text) :
    EndsInOperand [item] :=
  ⟨[], item, rfl, h⟩

theorem EndsInOperand.ne_operator {items : List Item} (h : EndsInOperand items) (front : List Item)
    (text : String) : items ≠ front ++ [.operator text] := by
  obtain ⟨others, last, rfl, hlast⟩ := h
  intro heq
  have hitem : [last] = [Item.operator text] := (List.append_inj' heq rfl).2
  exact hlast text (List.cons.inj hitem).1

/-- What stands behind an operator ends as the whole does. -/
theorem EndsInOperand.behind {front items : List Item} {operator : String}
    (h : EndsInOperand (front ++ .operator operator :: items)) : EndsInOperand items := by
  rcases List.eq_nil_or_concat items with rfl | ⟨others, last, rfl⟩
  · exact absurd rfl (h.ne_operator front operator)
  · refine ⟨others, last, List.concat_eq_append, ?_⟩
    rintro text rfl
    exact h.ne_operator (front ++ .operator operator :: others) text (by simp)

mutual

/-- No tree ends with an operator. -/
theorem endsInOperand_reading : (e : Expr) → EndsInOperand e.reading
  | .constant value => endsInOperand_singleton (by simp)
  | .parameter name => endsInOperand_singleton (by simp)
  | .unary operator operand => (endsInOperand_reading operand).cons _
  | .binary operator left right => ((endsInOperand_reading right).cons _).append _
  | .conditional condition ifTrue ifFalse =>
    ((((endsInOperand_reading ifFalse).cons _).append _).cons _).append _
  | .call name arguments => endsInOperand_readingAll (endsInOperand_singleton (by simp)) arguments
  | .unsupported explanation => endsInOperand_singleton (by simp)

theorem endsInOperand_readingAll {front : List Item} (hfront : EndsInOperand front) :
    (es : List Expr) → EndsInOperand (front ++ readingAll es)
  | [] => by simpa [readingAll] using hfront
  | e :: es => by
    rw [readingAll, ← List.append_assoc]
    exact endsInOperand_readingAll ((endsInOperand_reading e).append front) es

end

end Formula.Expr
