import Formula.Value.Compare

set_option autoImplicit false

/-! # Operations

What the operators of a formula do to values that have been computed. The parser reads more
operators than have a meaning here. -/

namespace Formula

/-! ## Unary operations -/

/-- The unary operators with a meaning. -/
inductive UnaryOperation where
  | negate
  | complement
  deriving DecidableEq

/-- The operation that an operator stands for. -/
def UnaryOperation.ofText? (operator : String) : Option UnaryOperation :=
  match operator with
  | "-" => some negate
  | "!" => some complement
  | _ => none

/-- The negated number, or the opposite truth value. -/
def UnaryOperation.apply (operation : UnaryOperation) (v : Value) : Except EvalError Value :=
  match operation with
  | negate => return .number (← v.toDecimal).neg
  | complement => return .boolean (!(← v.toBool))

/-! ## Arithmetic -/

/-- The operators on numbers. -/
inductive Arithmetic where
  | add
  | subtract
  | multiply
  | divide
  | remainder
  deriving DecidableEq

namespace Arithmetic

/-- How an operator is written. -/
def text : Arithmetic → String
  | add => "+"
  | subtract => "-"
  | multiply => "*"
  | divide => "/"
  | remainder => "%"

/-- Whether the right operand is a divisor, which must not be zero. -/
def divides : Arithmetic → Bool
  | divide | remainder => true
  | _ => false

/-- The result, if it is in range; the divisor is not zero. -/
def compute? : Arithmetic → Decimal → Decimal → Option Decimal
  | add => Decimal.add?
  | subtract => Decimal.sub?
  | multiply => Decimal.mul?
  | divide => Decimal.div?
  | remainder => Decimal.rem?

/-- The result, or why there is none. -/
def apply (operation : Arithmetic) (a b : Decimal) : Except EvalError Value :=
  if operation.divides && b.isZero then .error .divisionByZero
  else
    match operation.compute? a b with
    | some n => .ok (.number n)
    | none => .error (.overflow operation.text)

end Arithmetic

/-! ## Comparisons -/

/-- The operators that compare. -/
inductive Comparison where
  | equal
  | notEqual
  | less
  | lessEqual
  | greater
  | greaterEqual
  deriving DecidableEq

/-- Whether the comparison holds. Equality can always be decided, order only between
    two strings or two numbers. -/
def Comparison.holds (comparison : Comparison) (a b : Value) : Except EvalError Bool :=
  match comparison with
  | equal => .ok (a.equals b)
  | notEqual => .ok (!a.equals b)
  | less => return (← a.order b) == .lt
  | lessEqual => return (← a.order b) != .gt
  | greater => return (← a.order b) == .gt
  | greaterEqual => return (← a.order b) != .lt

/-! ## Binary operations -/

/-- The binary operators with a meaning. The two logical ones may leave their
    right operand alone. -/
inductive BinaryOperation where
  | both
  | either
  | arithmetic (operation : Arithmetic)
  | comparison (comparison : Comparison)
  deriving DecidableEq

/-- The operation that an operator stands for. -/
def BinaryOperation.ofText? (operator : String) : Option BinaryOperation :=
  match operator with
  | "&&" => some both
  | "||" => some either
  | "+" => some (arithmetic .add)
  | "-" => some (arithmetic .subtract)
  | "*" => some (arithmetic .multiply)
  | "/" => some (arithmetic .divide)
  | "%" => some (arithmetic .remainder)
  | "==" => some (comparison .equal)
  | "!=" => some (comparison .notEqual)
  | "<" => some (comparison .less)
  | "<=" => some (comparison .lessEqual)
  | ">" => some (comparison .greater)
  | ">=" => some (comparison .greaterEqual)
  | _ => none

end Formula
