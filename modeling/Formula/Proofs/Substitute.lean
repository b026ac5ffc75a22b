import Formula.Proofs.Preorder

set_option autoImplicit false

/-! # Putting a tree in the place of a parameter

Every leaf with the parameter is replaced, and nothing else changes. -/

namespace Formula.Expr

mutual

/-- The tree with `s` in the place of every leaf `x`. -/
def substitute (e : Expr) (x : String) (s : Expr) : Expr :=
  match e with
  | .constant value => .constant value
  | .parameter name => if name = x then s else .parameter name
  | .unary operator operand => .unary operator (operand.substitute x s)
  | .binary operator left right =>
    .binary operator (left.substitute x s) (right.substitute x s)
  | .conditional condition ifTrue ifFalse =>
    .conditional (condition.substitute x s) (ifTrue.substitute x s) (ifFalse.substitute x s)
  | .call name arguments => .call name (substituteAll arguments x s)
  | .unsupported explanation => .unsupported explanation

/-- The trees with `s` in the place of every leaf `x`. -/
def substituteAll (es : List Expr) (x : String) (s : Expr) : List Expr :=
  match es with
  | [] => []
  | e :: es => e.substitute x s :: substituteAll es x s

end

mutual

/-- The number of leaves `x`. -/
def uses (x : String) : Expr → Nat
  | .constant _ | .unsupported _ => 0
  | .parameter name => if name = x then 1 else 0
  | .unary _ operand => operand.uses x
  | .binary _ left right => left.uses x + right.uses x
  | .conditional condition ifTrue ifFalse => condition.uses x + (ifTrue.uses x + ifFalse.uses x)
  | .call _ arguments => usesAll x arguments

/-- The number of leaves `x` of several trees. -/
def usesAll (x : String) : List Expr → Nat
  | [] => 0
  | e :: es => e.uses x + usesAll x es

end

mutual

/-- A leaf is used if a walk comes to it. -/
theorem uses_pos_of_mem_preorder {x : String} (e : Expr) (h : .parameter x ∈ e.preorder) :
    0 < e.uses x := by
  cases e with
  | constant value => simp [preorder] at h
  | unsupported explanation => simp [preorder] at h
  | parameter name =>
    obtain rfl : x = name := by simpa [preorder] using h
    simp [uses]
  | unary operator operand =>
    have hoperand := uses_pos_of_mem_preorder operand (by simpa [preorder] using h)
    simpa [uses] using hoperand
  | binary operator left right =>
    simp only [preorder, List.mem_cons, reduceCtorEq, false_or, List.mem_append] at h
    rw [uses]
    rcases h with h | h
    · have hleft := uses_pos_of_mem_preorder left h
      omega
    · have hright := uses_pos_of_mem_preorder right h
      omega
  | conditional condition ifTrue ifFalse =>
    simp only [preorder, List.mem_cons, reduceCtorEq, false_or, List.mem_append] at h
    rw [uses]
    rcases h with h | h | h
    · have hcondition := uses_pos_of_mem_preorder condition h
      omega
    · have htrue := uses_pos_of_mem_preorder ifTrue h
      omega
    · have hfalse := uses_pos_of_mem_preorder ifFalse h
      omega
  | call name arguments =>
    have harguments := usesAll_pos_of_mem_preorderAll arguments (by simpa [preorder] using h)
    simpa [uses] using harguments

theorem usesAll_pos_of_mem_preorderAll {x : String} (es : List Expr)
    (h : .parameter x ∈ preorderAll es) : 0 < usesAll x es := by
  match es with
  | [] => simp [preorderAll] at h
  | e :: es =>
    rw [usesAll]
    rcases List.mem_append.1 h with h | h
    · have hfirst := uses_pos_of_mem_preorder e h
      omega
    · have hothers := usesAll_pos_of_mem_preorderAll es h
      omega

end

end Formula.Expr
