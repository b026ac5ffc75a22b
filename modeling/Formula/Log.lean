import Formula.Eval
import Formula.Registry

set_option autoImplicit false

/-! # Log records

What the library reports about its work: the texts that are parsed and the functions that are
called, for tracing, and the constructs that are folded and the functions that are registered, for
debugging. The functions here do what their namesakes do and answer with the records as well. -/

namespace Formula.Log

/-- How much detail a record is. -/
inductive Level where
  | trace
  | debug
  deriving DecidableEq, Inhabited

/-- The level's name. -/
def Level.name : Level → String
  | trace => "trace"
  | debug => "debug"

/-- Something that happened. -/
inductive Record where
  | parsing (text : String)
  | folded (fold : Fold)
  | calling (name : String) (arguments : Nat)
  | registered (signature : Signature)
  deriving DecidableEq

namespace Record

/-- The level that a record is reported at. -/
def level : Record → Level
  | parsing _ | calling _ _ => .trace
  | folded _ | registered _ => .debug

/-- The text of a record. -/
def message : Record → String
  | parsing text => "parsing expression: " ++ text
  | folded fold => fold.message
  | calling name arguments =>
    "calling " ++ name ++ " with " ++ toString arguments ++ " argument(s)"
  | registered signature =>
    "registered function " ++ signature.name ++ "/" ++ toString signature.arity

end Record

variable {σ : Type}

/-- Parses; the text comes first in the records, then what was folded. -/
def parseWith (options : ParseOptions) (text : String) : Except ParseError Expr × List Record :=
  let (result, folds) := parseRecording options text
  (result, .parsing text :: folds.map .folded)

/-- Evaluates; the records are the calls, in order. -/
def evaluate (e : Expr) (bindings : Bindings) (resolver : Resolver σ) (state : σ) :
    (Except EvalError Value × σ) × List Record :=
  let (result, state, calls) := (e.evaluate bindings resolver.recording).run.run (state, [])
  ((result, state), calls.map fun call => .calling call.name call.arguments.length)

/-- Parses and evaluates. -/
def evalWith (options : ParseOptions) (text : String) (bindings : Bindings) (resolver : Resolver σ)
    (state : σ) : (Except Error Value × σ) × List Record :=
  match parseWith options text with
  | (.error e, records) => ((.error (.parse e), state), records)
  | (.ok e, records) =>
    let ((result, state), calls) := evaluate e bindings resolver state
    ((result.mapError .evaluation, state), records ++ calls)

/-- The record of a registration: none if it failed. -/
def ofRegistration (name : String) (arity : Nat) (result : Except RegistryError (Registry σ)) :
    List Record :=
  match result with
  | .ok _ => [.registered ⟨name, arity⟩]
  | .error _ => []

end Formula.Log
