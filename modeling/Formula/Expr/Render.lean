import Formula.Expr.Basic

set_option autoImplicit false

/-! # Rendering

A compact text for a tree: every operator application that joins operands stands in
parentheses, so the structure can be read off. Strings are put in quotes as they are, and an
unsupported part shows as `<error>`. -/

namespace Formula.Expr

/-- A constant's text: a string in quotes, anything else as it is displayed. -/
def renderValue : Value → String
  | .string s => "\"" ++ s ++ "\""
  | v => v.display

mutual

/-- The text of a tree. -/
def render : Expr → String
  | constant v => renderValue v
  | parameter name => name
  | unary operator operand => operator ++ " " ++ operand.render
  | binary operator left right =>
    "(" ++ left.render ++ " " ++ operator ++ " " ++ right.render ++ ")"
  | conditional condition ifTrue ifFalse =>
    "(" ++ condition.render ++ ") ? (" ++ ifTrue.render ++ ") : (" ++ ifFalse.render ++ ")"
  | call name arguments => name ++ "(" ++ renderAll arguments ++ ")"
  | unsupported _ => "<error>"

/-- The texts of a call's arguments, with commas between them. -/
def renderAll : List Expr → String
  | [] => ""
  | e :: es => e.render ++ renderMore es

/-- The texts of the arguments after the first one, each behind a comma. -/
def renderMore : List Expr → String
  | [] => ""
  | e :: es => ", " ++ e.render ++ renderMore es

end

end Formula.Expr
