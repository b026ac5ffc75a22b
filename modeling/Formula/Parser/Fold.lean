set_option autoImplicit false

/-! # Folded constructs

Some constructs are read but have no expression of their own: they are folded into an unsupported
part of the tree. Each time that happens, a `Fold` records what it was and where it started. -/

namespace Formula

/-- The constructs that are read and folded. -/
inductive Construct where
  | typeConversion
  | characterLiteral
  | nullLiteral
  | memberAccess
  | elementAccess
  | computedInvocation
  deriving DecidableEq, Inhabited

/-- What the unsupported part says about the construct. -/
def Construct.explanation : Construct → String
  | typeConversion => "Type conversion is not supported"
  | characterLiteral => "Character literals are not supported"
  | nullLiteral => "Null literal is not supported"
  | memberAccess => "Member access is not supported"
  | elementAccess => "Element access is not supported"
  | computedInvocation => "Invocation of a computed expression is not supported"

/-- A construct that has been folded, and the byte offset of the token that it is reported at. -/
structure Fold where
  construct : Construct
  position : Nat
  deriving DecidableEq, Inhabited

/-- The text of the record. -/
def Fold.message (f : Fold) : String :=
  match f.construct with
  | .typeConversion =>
    "type conversion at position " ++ toString f.position ++ " folded into an unsupported node"
  | construct => construct.explanation ++ " (position " ++ toString f.position ++ ")"

end Formula
