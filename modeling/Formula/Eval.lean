import Formula.Evaluation
import Formula.Parse

set_option autoImplicit false

/-! # From text to value

`eval` parses and evaluates in one step. -/

namespace Formula

/-- Why a text has no value. -/
inductive Error where
  | parse (error : ParseError)
  | evaluation (error : EvalError)
  deriving DecidableEq

/-- The text of the error. -/
def Error.message : Error → String
  | parse error => "parse error: " ++ error.message
  | evaluation error => error.message

variable {σ : Type}

/-- The value of a text, and the state that its function calls have left. -/
def evalWith (options : ParseOptions) (text : String) (bindings : Bindings) (resolver : Resolver σ)
    (state : σ) : Except Error Value × σ :=
  match parseWith options text with
  | .error e => (.error (.parse e), state)
  | .ok e =>
    let (result, state) := (e.evaluate bindings resolver).run.run state
    (result.mapError .evaluation, state)

/-- The value of a text under the default options. -/
def eval (text : String) (bindings : Bindings) (resolver : Resolver σ) (state : σ) :
    Except Error Value × σ :=
  evalWith {} text bindings resolver state

end Formula
