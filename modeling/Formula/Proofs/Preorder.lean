import Formula.Expr.Walk

set_option autoImplicit false

/-! # The order of a walk

A walk keeps a stack of lists of nodes, but what is still to come is only one list: the nodes on the
stack with everything below them, innermost first. -/

namespace Formula

namespace Expr

mutual

/-- A tree's nodes, each before those of its parts. -/
def preorder : Expr → List Expr
  | .constant value => [.constant value]
  | .parameter name => [.parameter name]
  | .unary operator operand => .unary operator operand :: operand.preorder
  | .binary operator left right => .binary operator left right :: (left.preorder ++ right.preorder)
  | .conditional condition ifTrue ifFalse =>
    .conditional condition ifTrue ifFalse ::
      (condition.preorder ++ (ifTrue.preorder ++ ifFalse.preorder))
  | .call name arguments => .call name arguments :: preorderAll arguments
  | .unsupported explanation => [.unsupported explanation]

/-- The nodes of several trees, one tree after the other. -/
def preorderAll : List Expr → List Expr
  | [] => []
  | e :: es => e.preorder ++ preorderAll es

end

theorem preorder_eq (e : Expr) : e.preorder = e :: preorderAll e.parts := by
  cases e <;> simp [preorder, preorderAll, parts]

theorem preorderAll_append (as bs : List Expr) :
    preorderAll (as ++ bs) = preorderAll as ++ preorderAll bs := by
  induction as with
  | nil => rfl
  | cons a as ih => simp [preorderAll, ih]

end Expr

namespace Walk

theorem toList_eq (w : Walk) :
    w.toList = match w.next? with
      | none => []
      | some (e, rest) => e :: rest.toList := by
  rw [toList]
  split <;> simp_all

/-- The nodes still to come are the trees that are still to come, each with all that is below it. -/
theorem toList_eq_preorderAll (w : Walk) : w.toList = Expr.preorderAll w.remaining := by
  rcases w.next_cases with ⟨hnext, hnone⟩ | ⟨e, others, behind, hnext, hnow, hthen⟩
  · have hlast : w.next? = none := by simp [next?, hnext]
    rw [toList_eq, hlast, hnone, Expr.preorderAll]
  · have hstep : w.next? = some (e, behind) := by simp [next?, hnext]
    have hsize := size_of_next? hstep
    rw [toList_eq, hstep]
    dsimp only
    rw [toList_eq_preorderAll behind, hnow, hthen, Expr.preorderAll, Expr.preorderAll_append,
      Expr.preorder_eq, List.cons_append]
  termination_by w.size
  decreasing_by omega

end Walk

/-- The nodes of a tree are walked in preorder. -/
theorem Expr.nodes_eq_preorder (e : Expr) : e.nodes = e.preorder := by
  rw [nodes, Walk.toList_eq_preorderAll]
  simp [Walk.start, Walk.remaining, preorderAll]

end Formula
