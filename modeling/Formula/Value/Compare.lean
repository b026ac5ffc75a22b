import Formula.Value.Convert

set_option autoImplicit false

/-! # Comparing values

What the comparison operators of a formula do. They are more lenient than `Value.same`: values of
different kinds are compared as numbers. -/

namespace Formula.Value

/-- Equality as formulas have it: values of one kind directly, others as numbers. A side that stands
    for no number makes them unequal. -/
def equals : Value → Value → Bool
  | number a, number b => a.same b
  | string a, string b => a == b
  | boolean a, boolean b => a == b
  | a, b =>
    match a.toDecimal, b.toDecimal with
    | .ok x, .ok y => x.same y
    | _, _ => false

/-- Order as formulas have it: two strings by their characters, anything else as numbers. -/
def order : Value → Value → Except EvalError Ordering
  | string a, string b => .ok (compareOfLessAndEq a b)
  | a, b => do
    let x ← a.toDecimal
    let y ← b.toDecimal
    return x.cmp y

end Formula.Value
