import Formula.Expr.Basic
import Formula.Resolver
import Formula.Operation

set_option autoImplicit false

/-! # Evaluation

Operands are evaluated left to right, and each is converted as soon as its operator needs it
converted. The logical operators and the conditional evaluate no more than they need. The first
error ends the evaluation, with the state that the calls made so far have left. -/

namespace Formula

/-- The values of the parameters. -/
abbrev Bindings : Type := String → Option Value

/-- No parameter has a value. -/
def Bindings.none : Bindings := fun _ => Option.none

/-- Every parameter has the first value listed for it. -/
def Bindings.ofList (values : List (String × Value)) : Bindings := fun name => values.lookup name

/-- A computation that can fail and that passes on the state of the host's functions. -/
abbrev Evaluation (σ α : Type) : Type := ExceptT EvalError (StateM σ) α

namespace Evaluation

variable {σ : Type}

/-- Evaluates an operand that must be a number. -/
def decimal (operand : Evaluation σ Value) : Evaluation σ Decimal := do (← operand).toDecimal

/-- Evaluates an operand that must be a truth value. -/
def boolean (operand : Evaluation σ Value) : Evaluation σ Bool := do (← operand).toBool

/-- Calls a function; its failure names it. -/
def call (resolver : Resolver σ) (name : String) (arguments : List Value) : Evaluation σ Value :=
  ExceptT.mk fun state =>
    let (result, state) := resolver name arguments state
    (result.mapError (.function name), state)

/-- Applies a binary operation to its operands. -/
def binary (operation : BinaryOperation) (left right : Evaluation σ Value) : Evaluation σ Value :=
  match operation with
  | .both => do
    if ← boolean left then return .boolean (← boolean right) else return .boolean false
  | .either => do
    if ← boolean left then return .boolean true else return .boolean (← boolean right)
  | .arithmetic operation => do
    let a ← decimal left
    let b ← decimal right
    operation.apply a b
  | .comparison comparison => do
    let a ← left
    let b ← right
    return .boolean (← comparison.holds a b)

end Evaluation

namespace Expr

variable {σ : Type}

mutual

/-- The value of an expression. -/
def evaluate (bindings : Bindings) (resolver : Resolver σ) : Expr → Evaluation σ Value
  | constant value => return value
  | parameter name =>
    match bindings name with
    | some value => return value
    | none => throw (.unboundParameter name)
  | unary operator operand =>
    match UnaryOperation.ofText? operator with
    | some operation => do operation.apply (← operand.evaluate bindings resolver)
    | none => throw (.unsupportedUnaryOperator operator)
  | binary operator left right =>
    match BinaryOperation.ofText? operator with
    | some operation =>
      Evaluation.binary operation (left.evaluate bindings resolver)
        (right.evaluate bindings resolver)
    | none => throw (.unsupportedBinaryOperator operator)
  | conditional condition ifTrue ifFalse => do
    if ← Evaluation.boolean (condition.evaluate bindings resolver) then
      ifTrue.evaluate bindings resolver
    else
      ifFalse.evaluate bindings resolver
  | call name arguments => do
    Evaluation.call resolver name (← evaluateAll bindings resolver arguments)
  | unsupported explanation => throw (.unsupported explanation)

/-- The values of a call's arguments, in order. -/
def evaluateAll (bindings : Bindings) (resolver : Resolver σ) :
    List Expr → Evaluation σ (List Value)
  | [] => return []
  | e :: es => do
    let value ← e.evaluate bindings resolver
    return value :: (← evaluateAll bindings resolver es)

end

end Expr

end Formula
