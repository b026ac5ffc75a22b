import Formula.Proofs.Dependence

set_option autoImplicit false

/-! # Logical operators as conditionals

A logical operator evaluates no more of its operands than the conditional that says the same, and
takes the same of them for a truth value. So a tree can do without logical operators: it gives the
same value or the same error, and calls the same functions in the same order. -/

namespace Formula.Expr

/-! ## Rewriting from the leaves up -/

mutual

/-- The tree with every node replaced by what `f` makes of it, its parts first. -/
def rewrite (f : Expr → Expr) : Expr → Expr
  | constant value => f (constant value)
  | parameter name => f (parameter name)
  | unary operator operand => f (unary operator (operand.rewrite f))
  | binary operator left right => f (binary operator (left.rewrite f) (right.rewrite f))
  | conditional condition ifTrue ifFalse =>
    f (conditional (condition.rewrite f) (ifTrue.rewrite f) (ifFalse.rewrite f))
  | call name arguments => f (call name (rewriteAll f arguments))
  | unsupported explanation => f (unsupported explanation)

/-- The trees with every node replaced. -/
def rewriteAll (f : Expr → Expr) : List Expr → List Expr
  | [] => []
  | e :: es => e.rewrite f :: rewriteAll f es

end

section

variable {σ : Type} {f : Expr → Expr} {bindings : Bindings} {resolver : Resolver σ}

theorem rewriteAll_eq_map (es : List Expr) : rewriteAll f es = es.map (rewrite f) := by
  induction es with
  | nil => rfl
  | cons e es ih => rw [rewriteAll, ih, List.map_cons]

/-- What is put in the place of a tree is made of one whose parts are rewritten. -/
theorem exists_rewrite_eq (e : Expr) :
    ∃ node : Expr, e.rewrite f = f node ∧ node.parts = e.parts.map (rewrite f) := by
  cases e with
  | call name arguments => exact ⟨_, rfl, rewriteAll_eq_map arguments⟩
  | _ => exact ⟨_, rfl, rfl⟩

/-- What `f` passes on from the nodes of the parts to those of the tree holds of all
    nodes that rewriting leaves. -/
theorem forall_nodes_rewrite {P : Expr → Prop}
    (h : ∀ e : Expr, (∀ part ∈ e.parts, ∀ node ∈ part.nodes, P node) → ∀ node ∈ (f e).nodes, P node)
    (e : Expr) : ∀ node ∈ (e.rewrite f).nodes, P node := by
  induction e using induction_parts with
  | step e ih =>
    obtain ⟨top, heq, hparts⟩ := e.exists_rewrite_eq (f := f)
    rw [heq]
    refine h top fun part hpart => ?_
    rw [hparts, List.mem_map] at hpart
    obtain ⟨original, horiginal, rfl⟩ := hpart
    exact ih original horiginal

/-- A rewriting that keeps the evaluation of every node keeps that of every tree. -/
theorem evaluate_rewrite
    (h : ∀ e : Expr, (f e).evaluate bindings resolver = e.evaluate bindings resolver) (e : Expr) :
    (e.rewrite f).evaluate bindings resolver = e.evaluate bindings resolver := by
  induction e using induction_parts with
  | step e ih =>
    cases e with
    | constant value => exact h _
    | parameter name => exact h _
    | unsupported explanation => exact h _
    | unary operator operand =>
      rw [rewrite, h, evaluate, evaluate, ih operand (by simp [parts])]
    | binary operator left right =>
      rw [rewrite, h, evaluate, evaluate, ih left (by simp [parts]), ih right (by simp [parts])]
    | conditional condition ifTrue ifFalse =>
      rw [rewrite, h, evaluate, evaluate, ih condition (by simp [parts]),
        ih ifTrue (by simp [parts]), ih ifFalse (by simp [parts])]
    | call name arguments =>
      have hall : evaluateAll bindings resolver (arguments.map (rewrite f)) =
          evaluateAll bindings resolver arguments :=
        evaluateAll_map ih
      rw [rewrite, h, evaluate, evaluate, rewriteAll_eq_map, hall]

end

/-! ## Desugaring -/

/-- A tree that is true or false, as a conditional: its value must be a truth value. -/
def truth (e : Expr) : Expr := conditional e (constant (.boolean true)) (constant (.boolean false))

/-- A logical operator as a conditional; any other node stays as it is. -/
def desugarNode : Expr → Expr
  | unary "!" a => conditional a (constant (.boolean false)) (constant (.boolean true))
  | binary "&&" a b => conditional a b.truth (constant (.boolean false))
  | binary "||" a b => conditional a (constant (.boolean true)) b.truth
  | e => e

/-- The tree with all its logical operators as conditionals. -/
def desugar (e : Expr) : Expr := e.rewrite desugarNode

/-- Whether the tree is a logical operator with its operands. -/
def isLogical : Expr → Bool
  | unary "!" _ | binary "&&" _ _ | binary "||" _ _ => true
  | _ => false

theorem not_isLogical_of_mem_desugarNode {e : Expr}
    (h : ∀ part ∈ e.parts, ∀ node ∈ part.nodes, node.isLogical = false) :
    ∀ node ∈ e.desugarNode.nodes, node.isLogical = false := by
  have hconstant (value : Value) : ∀ node ∈ (constant value).nodes, node.isLogical = false :=
    forall_nodes_iff.2 ⟨rfl, by simp [parts]⟩
  have hconditional {c t f : Expr} (hc : ∀ node ∈ c.nodes, node.isLogical = false)
      (ht : ∀ node ∈ t.nodes, node.isLogical = false)
      (hf : ∀ node ∈ f.nodes, node.isLogical = false) :
      ∀ node ∈ (conditional c t f).nodes, node.isLogical = false :=
    forall_nodes_iff.2 ⟨rfl, by simpa [parts] using ⟨hc, ht, hf⟩⟩
  unfold desugarNode
  split
  · next a =>
    exact hconditional (h a (by simp [parts])) (hconstant _) (hconstant _)
  · next a b =>
    have hb := h b (by simp [parts])
    exact hconditional (h a (by simp [parts])) (hconditional hb (hconstant _) (hconstant _))
      (hconstant _)
  · next a b =>
    have hb := h b (by simp [parts])
    exact hconditional (h a (by simp [parts])) (hconstant _)
      (hconditional hb (hconstant _) (hconstant _))
  · next hnot hboth heither =>
    refine forall_nodes_iff.2 ⟨?_, h⟩
    unfold isLogical
    split
    · next a => exact absurd rfl (hnot a)
    · next a b => exact absurd rfl (hboth a b)
    · next a b => exact absurd rfl (heither a b)
    · rfl

/-- No logical operator is left. -/
theorem not_isLogical_of_mem_desugar (e : Expr) :
    ∀ node ∈ e.desugar.nodes, node.isLogical = false :=
  forall_nodes_rewrite (fun _ => not_isLogical_of_mem_desugarNode) e

section

variable {σ : Type} (bindings : Bindings) (resolver : Resolver σ)

theorem evaluate_truth (e : Expr) :
    e.truth.evaluate bindings resolver =
      (do return .boolean (← Evaluation.boolean (e.evaluate bindings resolver))) := by
  rw [truth, evaluate]
  refine bind_congr fun b => ?_
  cases b <;> rfl

/-- The opposite of a truth value. -/
theorem evaluate_not (e : Expr) :
    (unary "!" e).evaluate bindings resolver =
      (do return .boolean (!(← Evaluation.boolean (e.evaluate bindings resolver)))) := by
  rw [Evaluation.boolean, bind_assoc]
  refine bind_congr fun value => ?_
  rw [UnaryOperation.apply]
  cases value.toBool <;> rfl

/-- A conditional does with its condition what a logical operator does with its left operand. -/
theorem evaluate_desugarNode (e : Expr) :
    e.desugarNode.evaluate bindings resolver = e.evaluate bindings resolver := by
  unfold desugarNode
  split
  · rw [evaluate_not, evaluate]
    refine bind_congr fun b => ?_
    cases b <;> rfl
  · simp only [evaluate, evaluate_truth]
    rfl
  · simp only [evaluate, evaluate_truth]
    rfl
  · rfl

/-- **Logical operators are conditionals.** Without them a tree gives the same value or the same
    error, makes the same calls in the same order, and leaves the same state. -/
theorem desugar_faithful (e : Expr) (state : σ) :
    e.desugar.result bindings resolver state = e.result bindings resolver state ∧
      e.desugar.calls bindings resolver state = e.calls bindings resolver state ∧
      ((e.desugar.evaluate bindings resolver).run.run state).2 =
        ((e.evaluate bindings resolver).run.run state).2 := by
  have hsame {τ : Type} (other : Resolver τ) :
      e.desugar.evaluate bindings other = e.evaluate bindings other :=
    evaluate_rewrite (evaluate_desugarNode bindings other) e
  refine ⟨?_, ?_, ?_⟩
  · rw [result, result, hsame]
  · rw [calls, calls, hsame]
  · rw [hsame]

end

end Formula.Expr
