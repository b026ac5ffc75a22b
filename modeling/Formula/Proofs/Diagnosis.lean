import Formula.Proofs.Calls

set_option autoImplicit false

/-! # What an evaluation error says about the tree

Before a tree is evaluated, a caller can collect its unsupported parts and its parameters,
and walk all of its nodes. That is enough to foresee every error: each one points to a
node that the walk comes to. -/

namespace Formula.Expr

open Evaluation

/-! ## Operators -/

/-- The binary operators that have a meaning. -/
def evaluatedOperators : List String :=
  ["&&", "||", "+", "-", "*", "/", "%", "==", "!=", "<", "<=", ">", ">="]

theorem not_mem_of_unary {operator : String} (h : UnaryOperation.ofText? operator = none) :
    operator ∉ ["-", "!"] := by
  intro hmem
  simp only [List.mem_cons, List.not_mem_nil, or_false] at hmem
  rcases hmem with rfl | rfl <;> cases h

theorem not_mem_of_binary {operator : String} (h : BinaryOperation.ofText? operator = none) :
    operator ∉ evaluatedOperators := by
  have hall : ∀ operator ∈ evaluatedOperators, BinaryOperation.ofText? operator ≠ none := by decide
  exact fun hmem => hall operator hmem h

/-- An arithmetic operator is known by its operation. -/
theorem eq_text_of_arithmetic {operator : String} {operation : Arithmetic}
    (h : BinaryOperation.ofText? operator = some (.arithmetic operation)) :
    operator = operation.text := by
  unfold BinaryOperation.ofText? at h
  split at h <;> cases h <;> rfl

/-! ## Errors -/

/-- What an error of an evaluation says about the tree. -/
def Foresees (e : Expr) (bindings : Bindings) : EvalError → Prop
  | .unboundParameter name => name ∈ e.parameters ∧ bindings name = none
  | .unsupportedUnaryOperator operator =>
    (∃ operand, .unary operator operand ∈ e.nodes) ∧ operator ∉ ["-", "!"]
  | .unsupportedBinaryOperator operator =>
    (∃ left right, .binary operator left right ∈ e.nodes) ∧ operator ∉ evaluatedOperators
  | .divisionByZero =>
    ∃ operator ∈ ["/", "%"], ∃ left right, .binary operator left right ∈ e.nodes
  | .overflow operator =>
    (∃ left right, .binary operator left right ∈ e.nodes) ∧ operator ∈ ["+", "-", "*", "/", "%"]
  | .coercion _ _ => ∃ node ∈ e.nodes, node.kind ∈ [.unary, .binary, .conditional]
  | .unsupported explanation => explanation ∈ e.unsupportedParts
  | .function name _ => ∃ arguments, .call name arguments ∈ e.nodes

/-- An error that a node raises is foreseen by the tree. -/
theorem Raises.foresees {e node : Expr} {bindings : Bindings} {error : EvalError}
    (h : node.Raises bindings error) (hnode : node ∈ e.nodes) : e.Foresees bindings error := by
  cases h with
  | unbound h => exact ⟨mem_parameters_iff.2 hnode, h⟩
  | unaryOperator h => exact ⟨⟨_, hnode⟩, not_mem_of_unary h⟩
  | binaryOperator h => exact ⟨⟨_, _, hnode⟩, not_mem_of_binary h⟩
  | @division operator left right operation h divides =>
    obtain rfl := eq_text_of_arithmetic h
    refine ⟨operation.text, ?_, left, right, hnode⟩
    cases operation with
    | divide => decide
    | remainder => decide
    | _ => cases divides
  | @overflow operator left right operation h =>
    obtain rfl := eq_text_of_arithmetic h
    refine ⟨⟨left, right, hnode⟩, ?_⟩
    cases operation <;> decide
  | coercion converts h =>
    obtain ⟨found, expected, rfl⟩ := h
    exact ⟨node, hnode, converts⟩
  | unsupported explanation => exact mem_unsupportedParts_iff.2 hnode

/-- Every error of an evaluation is foreseen by the tree. So a tree without unsupported
    parts of which every parameter is bound fails neither because of an unsupported part
    nor because of a parameter. -/
theorem evaluate_error_foreseen {σ : Type} (e : Expr) (bindings : Bindings) (resolver : Resolver σ)
    (state : σ) :
    (∀ error, e.result bindings resolver state = .error error → e.Foresees bindings error) ∧
      (e.unsupportedParts = [] → (∀ name ∈ e.parameters, bindings name ≠ none) → ∀ text,
        e.result bindings resolver state ≠ .error (.unsupported text) ∧
          e.result bindings resolver state ≠ .error (.unboundParameter text)) := by
  have hforeseen (error : EvalError) (h : e.result bindings resolver state = .error error) :
      e.Foresees bindings error := by
    obtain ⟨d, hfollows, hd⟩ := exists_dialogue e bindings
    rw [(hd resolver state).1] at h
    rcases hfollows.raised_or_function h with
      ⟨node, hnode, hraises⟩ | ⟨_, source, rfl, signature, hmem, rfl⟩
    · exact hraises.foresees hnode
    · obtain ⟨arguments, hcall, -⟩ := e.exists_call_of_mem_signatures hmem
      exact ⟨arguments, hcall⟩
  refine ⟨hforeseen, fun hnone hbound text => ⟨fun h => ?_, fun h => ?_⟩⟩
  · have hmem : text ∈ e.unsupportedParts := hforeseen _ h
    simp [hnone] at hmem
  · obtain ⟨hmem, hunbound⟩ := hforeseen _ h
    exact hbound text hmem hunbound

/-- A parameter in the branch of a conditional in an argument, unbound and bound. -/
theorem evaluate_error_foreseen_of_branch :
    let e : Expr := .call "f" [.conditional (.parameter "a") (.unary "!" (.parameter "b"))
      (.parameter "b")]
    let unbound : Bindings := .ofList [("a", .boolean false)]
    let bound : Bindings := .ofList [("a", .boolean false), ("b", .string "x")]
    e.result unbound .none () = .error (.unboundParameter "b") ∧
      ("b" ∈ e.parameters ∧ unbound "b" = none) ∧
      ∀ text, e.result bound .none () ≠ .error (.unsupported text) ∧
        e.result bound .none () ≠ .error (.unboundParameter text) := by
  intro e unbound bound
  have herror : e.result unbound .none () = .error (.unboundParameter "b") := by rfl
  have hsupported : e.unsupportedParts = [] := by
    rw [unsupportedParts, nodes_eq_preorder]
    rfl
  have hbound : ∀ name ∈ e.parameters, bound name ≠ none := by
    rw [parameters, nodes_eq_preorder]
    decide
  exact ⟨herror, (evaluate_error_foreseen e unbound .none ()).1 _ herror,
    (evaluate_error_foreseen e bound .none ()).2 hsupported hbound⟩

end Formula.Expr
