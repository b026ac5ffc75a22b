import Formula.Proofs.Parts
import Mathlib.Data.List.ReduceOption

set_option autoImplicit false

/-! # Asking for one node after the other

What a walk keeps changes with every call: the root is given away, levels are put on the stack and
are left only when the next node is asked for. Of all this a caller sees one list, the nodes still
to come. Each call takes its first entry, and once it is empty there is no other answer any more. -/

namespace Formula

/-! ## Calls -/

namespace Iteration

variable {σ α : Type} {next : σ → Option α × σ} {view : σ → List α}

/-- The answers to `k` calls, and the state behind them. -/
def calls (next : σ → Option α × σ) : Nat → σ → List (Option α) × σ
  | 0, state => ([], state)
  | k + 1, state =>
    let (answer, behind) := next state
    let (answers, behind) := calls next k behind
    (answer :: answers, behind)

/-- The answers to `k` calls that take a list apart: its entries, and nothing behind them. -/
def answers (k : Nat) (entries : List α) : List (Option α) :=
  (entries.take k).map some ++ List.replicate (k - entries.length) none

/-- Every call takes the first entry of the list that is still to come. -/
def TakesFirst (next : σ → Option α × σ) (view : σ → List α) : Prop :=
  ∀ state, (next state).1 = (view state).head? ∧ view (next state).2 = (view state).tail

theorem answers_succ (k : Nat) (entries : List α) :
    answers (k + 1) entries = entries.head? :: answers k entries.tail := by
  cases entries with
  | nil => simp [answers, List.replicate_succ]
  | cons entry entries => simp [answers]

/-- If every call takes the first entry, then `k` calls take the first `k`, and leave the others. -/
theorem TakesFirst.calls_eq (h : TakesFirst next view) (k : Nat) (state : σ) :
    (calls next k state).1 = answers k (view state) ∧
      view (calls next k state).2 = (view state).drop k := by
  induction k generalizing state with
  | zero => exact ⟨by simp [calls, answers], rfl⟩
  | succ k ih =>
    obtain ⟨hfirst, hrest⟩ := h state
    obtain ⟨hanswers, hbehind⟩ := ih (next state).2
    rw [hrest] at hanswers hbehind
    refine ⟨?_, ?_⟩
    · rw [answers_succ, ← hfirst, ← hanswers]
      rfl
    · rw [← List.drop_tail]
      exact hbehind

/-- What holds of a state and is kept by every call holds behind any number of calls. -/
theorem calls_keep {P : σ → Prop} (hstep : ∀ state, P state → P (next state).2)
    (k : Nat) {state : σ} (h : P state) : P (calls next k state).2 := by
  induction k generalizing state with
  | zero => exact h
  | succ k ih => exact ih (hstep state h)

theorem answers_nil (k : Nat) : answers k ([] : List α) = List.replicate k none := by simp [answers]

/-- The entries among the answers are the first ones of the list. -/
theorem reduceOption_answers (k : Nat) (entries : List α) :
    (answers k entries).reduceOption = entries.take k := by
  rw [answers, List.reduceOption_append, List.reduceOption_replicate_none, List.append_nil,
    List.reduceOption, List.filterMap_map]
  exact List.filterMap_some

/-- Of any number of calls as many answer with an entry as there are entries still to come. -/
theorem TakesFirst.length_reduceOption_calls (h : TakesFirst next view) (k : Nat) (state : σ) :
    (calls next k state).1.reduceOption.length = min k (view state).length := by
  rw [(h.calls_eq k state).1, reduceOption_answers, List.length_take]

/-- After a call without an answer there is no other answer any more. -/
theorem TakesFirst.calls_of_none (h : TakesFirst next view) {state : σ}
    (hnone : (next state).1 = none) (k : Nat) :
    (calls next k state).1 = List.replicate k none := by
  have hempty : view state = [] := by
    rw [(h state).1] at hnone
    exact List.head?_eq_none_iff.1 hnone
  rw [(h.calls_eq k state).1, hempty, answers_nil]

end Iteration

open Iteration

/-! ## Children and walks -/

theorem Children.takesFirst : TakesFirst Children.next Children.remaining :=
  Children.next_eq

theorem Walk.takesFirst : TakesFirst Walk.next Walk.toList := by
  intro w
  rw [toList_eq_preorderAll, toList_eq_preorderAll]
  rcases w.next_cases with ⟨hnext, hnone⟩ | ⟨e, others, behind, hnext, hnow, hthen⟩
  · rw [hnext, hnone]
    exact ⟨rfl, rfl⟩
  · rw [hnext, hnow, Expr.preorderAll, Expr.preorder_eq]
    refine ⟨rfl, ?_⟩
    rw [hthen, Expr.preorderAll_append]
    rfl

namespace Expr

theorem preorderAll_eq_flatMap (es : List Expr) : preorderAll es = es.flatMap preorder := by
  induction es with
  | nil => rfl
  | cons e es ih => rw [preorderAll, ih, List.flatMap_cons]

theorem length_preorderAll {es : List Expr} (h : ∀ e ∈ es, e.preorder.length = e.size) :
    (preorderAll es).length = sizeAll es := by
  induction es with
  | nil => rfl
  | cons e es ih =>
    obtain ⟨he, hes⟩ := List.forall_mem_cons.1 h
    rw [preorderAll, List.length_append, he, ih hes, sizeAll]

/-- The preorder of a tree has as many entries as the tree has nodes. -/
theorem length_preorder (e : Expr) : e.preorder.length = e.size := by
  refine induction_parts (P := fun e => e.preorder.length = e.size) (fun e ih => ?_) e
  rw [preorder_eq, List.length_cons, length_preorderAll ih, size_eq]

end Expr

/-- **The walk of a tree is its preorder.** The first `k` calls answer with the first `k` nodes, and
    with nothing once there are no more. A copy of the walk that is taken then has exactly the other
    nodes to come, however it is asked for them. The preorder is the tree and then the preorders of
    its children, as these come one by one, and has as many entries as the tree has nodes. -/
theorem walk_is_preorder (e : Expr) (k : Nat) :
    let behind := (calls Walk.next k (Walk.start e)).2
    (calls Walk.next k (Walk.start e)).1 = answers k e.preorder ∧
      (∀ m, (calls Walk.next m behind).1 = answers m (e.preorder.drop k)) ∧
      behind.toList = e.preorder.drop k ∧
      e.preorder = e :: e.parts.flatMap Expr.preorder ∧
      (∀ m, (calls Children.next m e.children).1 = answers m e.parts) ∧
      e.preorder.length = e.size := by
  intro behind
  have hstart : (Walk.start e).toList = e.preorder := e.nodes_eq_preorder
  obtain ⟨hanswers, hbehind⟩ := Walk.takesFirst.calls_eq k (Walk.start e)
  rw [hstart] at hanswers hbehind
  refine ⟨hanswers, fun m => ?_, hbehind, ?_, fun m => ?_, e.length_preorder⟩
  · rw [← hbehind]
    exact (Walk.takesFirst.calls_eq m behind).1
  · rw [← Expr.preorderAll_eq_flatMap, ← Expr.preorder_eq]
  · rw [← Children.remaining_children e]
    exact (Children.takesFirst.calls_eq m e.children).1

end Formula
