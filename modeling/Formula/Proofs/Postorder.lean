import Formula.Proofs.Parts
import Formula.Registry

set_option autoImplicit false

/-! # The calls of a tree

In postorder a node comes behind its parts, which is the order in which an evaluation that leaves
nothing out comes to the calls of a tree. -/

namespace Formula.Expr

mutual

/-- A tree's nodes, each behind those of its parts. -/
def postorder : Expr → List Expr
  | .constant value => [.constant value]
  | .parameter name => [.parameter name]
  | .unary operator operand => operand.postorder ++ [.unary operator operand]
  | .binary operator left right =>
    left.postorder ++ (right.postorder ++ [.binary operator left right])
  | .conditional condition ifTrue ifFalse =>
    condition.postorder ++ (ifTrue.postorder ++
      (ifFalse.postorder ++ [.conditional condition ifTrue ifFalse]))
  | .call name arguments => postorderAll arguments ++ [.call name arguments]
  | .unsupported explanation => [.unsupported explanation]

/-- The nodes of several trees, one tree after the other. -/
def postorderAll : List Expr → List Expr
  | [] => []
  | e :: es => e.postorder ++ postorderAll es

end

theorem postorder_eq (e : Expr) : e.postorder = postorderAll e.parts ++ [e] := by
  cases e <;> simp [postorder, postorderAll, parts]

/-! ## Signatures -/

/-- The function that a node calls and the number of its arguments. -/
def signature? : Expr → Option Signature
  | .call name arguments => some ⟨name, arguments.length⟩
  | _ => none

/-- The calls of a tree in postorder. -/
def signatures (e : Expr) : List Signature := e.postorder.filterMap signature?

theorem filterMap_postorderAll (es : List Expr) :
    (postorderAll es).filterMap signature? = es.flatMap signatures := by
  induction es with
  | nil => rfl
  | cons e es ih => simp [postorderAll, signatures, ih]

/-- The calls of a tree are those of its parts and then its own. -/
theorem signatures_eq (e : Expr) :
    e.signatures = e.parts.flatMap signatures ++ e.signature?.toList := by
  rw [signatures, postorder_eq, List.filterMap_append, filterMap_postorderAll]
  cases h : e.signature? <;> simp [h]

@[simp]
theorem signatures_unary (operator : String) (operand : Expr) :
    signatures (.unary operator operand) = operand.signatures := by
  rw [signatures_eq]
  simp [parts, signature?]

@[simp]
theorem signatures_binary (operator : String) (left right : Expr) :
    signatures (.binary operator left right) = left.signatures ++ right.signatures := by
  rw [signatures_eq]
  simp [parts, signature?]

@[simp]
theorem signatures_conditional (condition ifTrue ifFalse : Expr) :
    signatures (.conditional condition ifTrue ifFalse) =
      condition.signatures ++ (ifTrue.signatures ++ ifFalse.signatures) := by
  rw [signatures_eq]
  simp [parts, signature?]

@[simp]
theorem signatures_call (name : String) (arguments : List Expr) :
    signatures (.call name arguments) =
      arguments.flatMap signatures ++ [⟨name, arguments.length⟩] := by
  rw [signatures_eq]
  simp [parts, signature?]

/-- Every signature is that of a call in the tree. -/
theorem exists_call_of_mem_signatures (e : Expr) {signature : Signature}
    (h : signature ∈ e.signatures) :
    ∃ arguments, .call signature.name arguments ∈ e.nodes ∧ arguments.length = signature.arity := by
  induction e using induction_parts with
  | step e ih =>
    rw [signatures_eq, List.mem_append, List.mem_flatMap] at h
    rcases h with ⟨part, hpart, h⟩ | h
    · obtain ⟨arguments, hnode, hlength⟩ := ih part hpart h
      exact ⟨arguments, mem_nodes_of_part hpart hnode, hlength⟩
    · cases e with
      | call name arguments =>
        obtain rfl : signature = ⟨name, arguments.length⟩ := by simpa [signature?] using h
        exact ⟨arguments, mem_nodes_self _, rfl⟩
      | _ => cases h

/-! ## Trees without lazy operators -/

/-- Whether an operation needs all of its operands. -/
def isStrict : Expr → Bool
  | .conditional _ _ _ => false
  | .binary operator _ _ => operator != "&&" && operator != "||"
  | _ => true

/-- A tree without conditionals, `&&` and `||`. -/
def Strict (e : Expr) : Prop := ∀ node ∈ e.nodes, node.isStrict = true

theorem Strict.isStrict {e : Expr} (h : e.Strict) : e.isStrict = true := h e (mem_nodes_self e)

theorem Strict.part {e part : Expr} (h : e.Strict) (hpart : part ∈ e.parts) : part.Strict :=
  fun node hnode => h node (mem_nodes_of_part hpart hnode)

end Formula.Expr
