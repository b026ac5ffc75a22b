import Formula.Proofs.Dialogue

set_option autoImplicit false

/-! # The errors of a node

Which errors a node of a tree can raise by itself, that is, once its operands have values. A call
raises none: if its function fails, that is the function's failure. -/

namespace Formula

/-! ## Errors of operations on values -/

/-- The error is that of a conversion. -/
def EvalError.IsCoercion (error : EvalError) : Prop :=
  ∃ found expected, error = .coercion found expected

theorem EvalError.IsCoercion.isOwn {error : EvalError} (h : error.IsCoercion) : error.IsOwn := by
  obtain ⟨found, expected, rfl⟩ := h
  intro name source
  simp

variable {error : EvalError}

/-- Of two steps the first one fails, or the second one with the value of the first. -/
theorem bind_eq_error_iff {α β : Type} {x : Except EvalError α} {f : α → Except EvalError β} :
    (x >>= f) = .error error ↔
      x = .error error ∨ ∃ value, x = .ok value ∧ f value = .error error := by
  cases x <;> simp [bind, Except.bind]

theorem isCoercion_of_toDecimal {v : Value} (h : v.toDecimal = .error error) :
    error.IsCoercion := by
  unfold Value.toDecimal at h
  split at h
  · cases h
  · cases h
  · cases h
  · split at h
    · cases h
    · cases h
      exact ⟨_, _, rfl⟩

theorem isCoercion_of_toBool {v : Value} (h : v.toBool = .error error) : error.IsCoercion := by
  unfold Value.toBool at h
  split at h
  · cases h
  · cases h
    exact ⟨_, _, rfl⟩

theorem isCoercion_of_order {a b : Value} (h : a.order b = .error error) : error.IsCoercion := by
  unfold Value.order at h
  split at h
  · cases h
  · rcases bind_eq_error_iff.1 h with ha | ⟨x, -, h⟩
    · exact isCoercion_of_toDecimal ha
    · rcases bind_eq_error_iff.1 h with hb | ⟨y, -, h⟩
      · exact isCoercion_of_toDecimal hb
      · cases h

theorem isCoercion_of_holds {comparison : Comparison} {a b : Value}
    (h : comparison.holds a b = .error error) : error.IsCoercion := by
  cases comparison with
  | equal => cases h
  | notEqual => cases h
  | _ =>
    rcases bind_eq_error_iff.1 h with h | ⟨ordering, -, h⟩
    · exact isCoercion_of_order h
    · cases h

theorem isCoercion_of_unary {operation : UnaryOperation} {v : Value}
    (h : operation.apply v = .error error) : error.IsCoercion := by
  cases operation with
  | negate =>
    rcases bind_eq_error_iff.1 h with h | ⟨n, -, h⟩
    · exact isCoercion_of_toDecimal h
    · cases h
  | complement =>
    rcases bind_eq_error_iff.1 h with h | ⟨b, -, h⟩
    · exact isCoercion_of_toBool h
    · cases h

/-- Arithmetic fails because of a divisor, or because of its result. -/
theorem eq_of_arithmetic {operation : Arithmetic} {a b : Decimal}
    (h : operation.apply a b = .error error) :
    operation.divides = true ∧ error = .divisionByZero ∨ error = .overflow operation.text := by
  unfold Arithmetic.apply at h
  split at h
  · next hzero =>
    cases h
    exact .inl ⟨(Bool.and_eq_true_iff.1 hzero).1, rfl⟩
  · split at h
    · cases h
    · cases h
      exact .inr rfl

/-! ## Errors of nodes -/

/-- The errors that a node raises by itself. -/
inductive Expr.Raises (bindings : Bindings) : Expr → EvalError → Prop where
  | unbound {name : String} (h : bindings name = none) :
      Raises bindings (.parameter name) (.unboundParameter name)
  | unaryOperator {operator : String} {operand : Expr}
    (h : UnaryOperation.ofText? operator = none) :
      Raises bindings (.unary operator operand) (.unsupportedUnaryOperator operator)
  | binaryOperator {operator : String} {left right : Expr}
      (h : BinaryOperation.ofText? operator = none) :
      Raises bindings (.binary operator left right) (.unsupportedBinaryOperator operator)
  | division {operator : String} {left right : Expr} {operation : Arithmetic}
      (h : BinaryOperation.ofText? operator = some (.arithmetic operation))
      (divides : operation.divides = true) :
      Raises bindings (.binary operator left right) .divisionByZero
  | overflow {operator : String} {left right : Expr} {operation : Arithmetic}
      (h : BinaryOperation.ofText? operator = some (.arithmetic operation)) :
      Raises bindings (.binary operator left right) (.overflow operation.text)
  | coercion {node : Expr} {error : EvalError}
      (converts : node.kind ∈ [.unary, .binary, .conditional]) (h : error.IsCoercion) :
      Raises bindings node error
  | unsupported (explanation : String) :
      Raises bindings (.unsupported explanation) (.unsupported explanation)

/-- No node raises the failure of a function. -/
theorem Expr.Raises.isOwn {bindings : Bindings} {node : Expr} (h : node.Raises bindings error) :
    error.IsOwn := by
  cases h with
  | coercion converts h => exact h.isOwn
  | _ =>
    intro name source
    simp

end Formula
