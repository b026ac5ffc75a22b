import Formula.Error

set_option autoImplicit false

/-! # Functions

A formula can call functions that its host provides. A function may keep a state between calls, so
it takes one and answers with the next. -/

namespace Formula

/-- A function of the host: from the arguments and the state to a result and the next state. -/
abbrev HostFunction (σ : Type) : Type := List Value → σ → Except FunctionError Value × σ

/-- Gives every function name its function; whether the number and kinds of arguments fit is the
    function's business. -/
abbrev Resolver (σ : Type) : Type := String → HostFunction σ

/-- The function that a name without one stands for. -/
def HostFunction.unknown {σ : Type} (name : String) : HostFunction σ := fun arguments state =>
  (.error (.unknown name arguments.length), state)

/-- No name has a function. -/
def Resolver.none {σ : Type} : Resolver σ := HostFunction.unknown

/-- A function call that has been made. -/
structure Call where
  name : String
  arguments : List Value
  deriving DecidableEq, Inhabited

/-- The same functions, with every call written down behind the state, in order. -/
def Resolver.recording {σ : Type} (resolver : Resolver σ) : Resolver (σ × List Call) :=
  fun name arguments (state, calls) =>
    let (result, state) := resolver name arguments state
    (result, state, calls ++ [⟨name, arguments⟩])

end Formula
