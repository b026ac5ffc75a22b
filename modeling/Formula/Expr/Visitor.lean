import Formula.Expr.Basic

set_option autoImplicit false

/-! # Visitors

A `Visitor` has an answer for every kind of expression, given the node's direct contents. A visitor
that cares for few kinds starts from `Visitor.fallback`, which answers by kind alone, and replaces
the fields that it cares for. -/

namespace Formula

/-- One answer for each kind of expression. -/
structure Visitor (β : Type) where
  constant : Value → β
  parameter : String → β
  unary : String → Expr → β
  binary : String → Expr → Expr → β
  conditional : Expr → Expr → Expr → β
  call : String → List Expr → β
  unsupported : String → β

/-- The visitor that looks at nothing but the kind. -/
def Visitor.fallback {β : Type} (answer : Expr.Kind → β) : Visitor β where
  constant _ := answer .constant
  parameter _ := answer .parameter
  unary _ _ := answer .unary
  binary _ _ _ := answer .binary
  conditional _ _ _ := answer .conditional
  call _ _ := answer .call
  unsupported _ := answer .unsupported

/-- The visitor's answer for this expression. -/
def Expr.accept {β : Type} (v : Visitor β) : Expr → β
  | constant value => v.constant value
  | parameter name => v.parameter name
  | unary operator operand => v.unary operator operand
  | binary operator left right => v.binary operator left right
  | conditional condition ifTrue ifFalse => v.conditional condition ifTrue ifFalse
  | call name arguments => v.call name arguments
  | unsupported explanation => v.unsupported explanation

end Formula
