import Formula.Expr.Basic

set_option autoImplicit false

/-! # Trees with normalized numbers

Normalizing a number changes its form and not its value, so a tree with all its numbers normalized
is equal to the tree, as equality compares numbers by value. -/

namespace Formula

namespace Decimal

theorem tenPow_succ (k : Nat) : tenPow (k + 1) = tenPow k * 10 := rfl

/-- Every zero that is dropped is a factor of ten. -/
theorem stripZeros_mul (mantissa scale : Nat) :
    (stripZeros mantissa scale).1 * tenPow (scale - (stripZeros mantissa scale).2) = mantissa := by
  induction scale generalizing mantissa with
  | zero => simp [stripZeros, tenPow]
  | succ scale ih =>
    rw [stripZeros]
    split
    · next hzero =>
      have hscale := (stripZeros_le (mantissa / 10) scale).2
      rw [Nat.succ_sub hscale, tenPow_succ, ← Nat.mul_assoc, ih]
      omega
    · simp [tenPow]

/-- Normalizing keeps the value. -/
theorem signedAt_normalize (d : Decimal) : d.normalize.signedAt d.scale = d.signed := by
  have hint := congrArg (Nat.cast (R := Int)) (stripZeros_mul d.mantissa d.scale)
  rw [Int.natCast_mul] at hint
  simp only [signedAt, signed, normalize]
  -- the sign of a zero is dropped
  by_cases hzero : d.mantissa = 0
  · rw [hzero] at hint
    simp only [isZero, hzero, beq_self_eq_true, Bool.not_true, Bool.and_false, Bool.false_eq_true,
      if_false, Int.natCast_zero, Int.neg_zero, ite_self]
    exact hint
  · simp only [isZero, hzero, beq_false_of_ne, ne_eq, not_false_eq_true, Bool.not_false,
      Bool.and_true]
    split
    · rw [Int.neg_mul, hint]
    · exact hint

/-- A normalized number has the value of the number. -/
theorem same_normalize (d : Decimal) : d.same d.normalize = true := by
  have hscale : max d.scale d.normalize.scale = d.scale :=
    Nat.max_eq_left (stripZeros_le d.mantissa d.scale).2
  have hself : d.signedAt d.scale = d.signed := by simp [signedAt, tenPow]
  rw [same, cmp]
  rw [hscale, hself, signedAt_normalize]
  simp

theorem negative_normalize {d : Decimal} (h : 0 ≤ d.signed) : d.normalize.negative = false := by
  simp only [normalize, Bool.and_eq_false_iff, Bool.not_eq_false', isZero, beq_iff_eq]
  rw [signed] at h
  split at h
  · right
    omega
  · next hnegative => exact .inl (by simpa using hnegative)

end Decimal

namespace Expr

mutual

/-- The tree with all its numbers normalized. -/
def normalize : Expr → Expr
  | .constant (.number d) => .constant (.number d.normalize)
  | .constant (.string s) => .constant (.string s)
  | .constant (.boolean b) => .constant (.boolean b)
  | .parameter name => .parameter name
  | .unary operator operand => .unary operator operand.normalize
  | .binary operator left right => .binary operator left.normalize right.normalize
  | .conditional condition ifTrue ifFalse =>
    .conditional condition.normalize ifTrue.normalize ifFalse.normalize
  | .call name arguments => .call name (normalizeAll arguments)
  | .unsupported explanation => .unsupported explanation

/-- The trees with all their numbers normalized. -/
def normalizeAll : List Expr → List Expr
  | [] => []
  | e :: es => e.normalize :: normalizeAll es

end

mutual

/-- A tree with all its numbers normalized is equal to the tree. -/
theorem same_normalize (e : Expr) : e.same e.normalize = true := by
  match e with
  | .constant (.number d) => exact d.same_normalize
  | .constant (.string s) => simp [normalize, same, Value.same]
  | .constant (.boolean b) => simp [normalize, same, Value.same]
  | .parameter name => simp [normalize, same]
  | .unary operator operand => simp [normalize, same, same_normalize operand]
  | .binary operator left right =>
    simp [normalize, same, same_normalize left, same_normalize right]
  | .conditional condition ifTrue ifFalse =>
    simp [normalize, same, same_normalize condition, same_normalize ifTrue, same_normalize ifFalse]
  | .call name arguments => simp [normalize, same, sameAll_normalizeAll arguments]
  | .unsupported explanation => simp [normalize, same]

theorem sameAll_normalizeAll (es : List Expr) : sameAll es (normalizeAll es) = true := by
  match es with
  | [] => rfl
  | e :: es => simp [normalizeAll, sameAll, same_normalize e, sameAll_normalizeAll es]

end

end Expr

end Formula
