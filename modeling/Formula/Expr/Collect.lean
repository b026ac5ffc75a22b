import Formula.Expr.Walk

set_option autoImplicit false

/-! # Collecting from a tree

What a caller wants to know before evaluating: which parts of the formula are not supported, and
which parameters it needs. -/

namespace Formula.Expr

/-- The explanation, if the node is an unsupported part. -/
def explanation? : Expr → Option String
  | unsupported explanation => some explanation
  | _ => none

/-- The name, if the node is a parameter. -/
def parameterName? : Expr → Option String
  | parameter name => some name
  | _ => none

/-- The explanations of all unsupported parts, in the order of the walk. -/
def unsupportedParts (e : Expr) : List String := e.nodes.filterMap explanation?

/-- The names not met before, each once, with `seen` the ones met before. -/
def distinct (seen : List String) : List String → List String
  | [] => []
  | name :: names =>
    if seen.contains name then distinct seen names else name :: distinct (name :: seen) names

/-- The names of all parameters, each once, in the order in which the walk meets them. -/
def parameters (e : Expr) : List String := distinct [] (e.nodes.filterMap parameterName?)

end Formula.Expr
