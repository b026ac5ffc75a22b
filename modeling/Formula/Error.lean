import Formula.Value

set_option autoImplicit false

/-! # Evaluation errors

Each error is its cause with what the message needs; the wording is in `message`. A function that is
called can fail in ways of its own, evaluation errors included, so the two types are mutual. -/

namespace Formula

mutual

/-- Why an expression has no value. -/
inductive EvalError where
  | unboundParameter (name : String)
  | unsupportedUnaryOperator (operator : String)
  | unsupportedBinaryOperator (operator : String)
  | divisionByZero
  | overflow (operator : String)
  | coercion (found : Value) (expected : ValueKind)
  | unsupported (explanation : String)
  | function (name : String) (source : FunctionError)

/-- Why a function call has no value. -/
inductive FunctionError where
  | unknown (name : String) (arity : Nat)
  | invalid (detail : String)
  | evaluation (error : EvalError)
  | other (message : String)

end

deriving instance DecidableEq for EvalError, FunctionError

instance : Inhabited EvalError := ⟨.divisionByZero⟩

instance : Inhabited FunctionError := ⟨.invalid ""⟩

mutual

/-- The text of an evaluation error. -/
def EvalError.message : EvalError → String
  | .unboundParameter name => "unbound parameter: " ++ name
  | .unsupportedUnaryOperator operator => "unary operator is not supported: " ++ operator
  | .unsupportedBinaryOperator operator => "binary operator is not supported: " ++ operator
  | .divisionByZero => "division by zero"
  | .overflow operator => "arithmetic overflow in '" ++ operator ++ "'"
  | .coercion found expected => "cannot convert " ++ found.describe ++ " to " ++ expected.name
  | .unsupported explanation => explanation
  | .function name source => "function " ++ name ++ " failed: " ++ source.message

/-- The text of a function's failure. -/
def FunctionError.message : FunctionError → String
  | .unknown name arity => "unknown function: " ++ name ++ "/" ++ toString arity
  | .invalid detail => "invalid arguments: " ++ detail
  | .evaluation error => error.message
  | .other message => message

end

end Formula
