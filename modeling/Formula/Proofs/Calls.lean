import Formula.Proofs.Conduct

set_option autoImplicit false

/-! # The calls of an evaluation

Functions may keep a state and may fail, so which of them an evaluation calls, and in which
order, is part of what it does. The calls are written down by evaluating with a recording
resolver, which changes nothing else. -/

namespace Formula.Expr

open Evaluation

variable {σ : Type} (e : Expr) (bindings : Bindings) (resolver : Resolver σ) (state : σ)

/-- What comes of an evaluation: a value or an error. -/
def result : Except EvalError Value := ((e.evaluate bindings resolver).run.run state).1

/-- The calls that an evaluation makes, in order. -/
def calls : List Call := ((e.evaluate bindings resolver.recording).run.run (state, [])).2.2

/-- Result and calls are those of the tree's dialogue. -/
theorem exists_dialogue : ∃ d : Dialogue Value,
    d.Follows (fun error => ∃ node ∈ e.nodes, node.Raises bindings error) e.Strict e.signatures ∧
      ∀ {σ : Type} (resolver : Resolver σ) (state : σ),
        e.result bindings resolver state = (d.outcome resolver state).1 ∧
          e.calls bindings resolver state = d.calls resolver state := by
  obtain ⟨d, hd, hfollows⟩ := conducts_evaluate bindings e
  refine ⟨d, hfollows, fun resolver state => ⟨?_, ?_⟩⟩
  · rw [result, hd]
  · rw [calls, hd, Dialogue.outcome_recording, List.nil_append]

/-! ## Failures -/

/-- As soon as a call fails, no other call is made, and the evaluation has that failure as its
    error, under the name of the function. It has the failure of a function as its error only if the
    last call was one of that function and failed with it. And as long as the functions of two
    resolvers answer alike, they are called alike. -/
theorem failure_is_final :
    (∀ k call source, (e.calls bindings resolver state)[k]? = some call →
      (resolver.answers (e.calls bindings resolver state) state)[k]? = some (.error source) →
      (e.calls bindings resolver state).length = k + 1 ∧
        e.result bindings resolver state = .error (.function call.name source)) ∧
    (∀ name source, e.result bindings resolver state = .error (.function name source) →
      ∃ call, (e.calls bindings resolver state).getLast? = some call ∧ call.name = name ∧
        (resolver.answers (e.calls bindings resolver state) state).getLast? =
          some (.error source)) ∧
    ∀ (τ : Type) (other : Resolver τ) (state' : τ) (k : Nat),
      other.answers ((e.calls bindings resolver state).take k) state' =
        resolver.answers ((e.calls bindings resolver state).take k) state →
      (e.calls bindings other state')[k]? = (e.calls bindings resolver state)[k]? := by
  obtain ⟨d, -, hd⟩ := exists_dialogue e bindings
  obtain ⟨hresult, hcalls⟩ := hd resolver state
  rw [hresult, hcalls]
  refine ⟨fun k call source => Dialogue.failure_ends,
    fun name source => Dialogue.exists_failure, ?_⟩
  intro τ other state' k h
  rw [(hd other state').2]
  exact Dialogue.next_call h

/-- A failure in an argument, below an equality and a conditional. -/
theorem failure_is_final_of_argument :
    let e : Expr :=
      .conditional (.binary "==" (.call "f" []) (.call "g" [.call "h" [], .call "f" []]))
      (.constant (.boolean true)) (.call "f" [])
    let refusing : Resolver Nat := fun name _ count =>
      (if name = "h" then .error (.invalid "closed") else .ok (.boolean true), count + 1)
    let granting : Resolver Unit := fun _ _ state => (.ok (.boolean true), state)
    (e.calls .none refusing 0).length = 2 ∧
      e.result .none refusing 0 = .error (.function "h" (.invalid "closed")) ∧
      (∃ call, (e.calls .none refusing 0).getLast? = some call ∧ call.name = "h" ∧
        (refusing.answers (e.calls .none refusing 0) 0).getLast? =
          some (.error (.invalid "closed"))) ∧
      (e.calls .none granting ())[1]? = (e.calls .none refusing 0)[1]? := by
  intro e refusing granting
  have hcalls : e.calls .none refusing 0 = [⟨"f", []⟩, ⟨"h", []⟩] := by rfl
  obtain ⟨hends, hlast, hnext⟩ := failure_is_final e .none refusing 0
  have hfailure := hends 1 ⟨"h", []⟩ (.invalid "closed") (by rw [hcalls]; rfl) (by rw [hcalls]; rfl)
  refine ⟨hfailure.1, hfailure.2, hlast "h" (.invalid "closed") hfailure.2, ?_⟩
  exact hnext Unit granting () 1 (by rw [hcalls]; rfl)

/-! ## Order -/

/-- The calls that an evaluation makes are calls of the tree in postorder, each at most once. If no
    operator is lazy and there is a value, they are all of them. -/
theorem calls_in_postorder :
    ((e.calls bindings resolver state).map Call.signature).Sublist e.signatures ∧
      ∀ value, e.Strict → e.result bindings resolver state = .ok value →
        (e.calls bindings resolver state).map Call.signature = e.signatures := by
  obtain ⟨d, hfollows, hd⟩ := exists_dialogue e bindings
  obtain ⟨hresult, hcalls⟩ := hd resolver state
  rw [hresult, hcalls]
  exact ⟨hfollows.sublist_calls, fun value hstrict hvalue => hfollows.calls_eq hstrict hvalue⟩

/-- Arguments come before their call, and the left operand before the right one. -/
theorem calls_in_postorder_of_comparison :
    let e : Expr := .binary "<=" (.call "g" [.call "h" []]) (.call "f" [])
    let counting : Resolver Nat := fun name _ count => (.ok (.string name), count + 1)
    ((e.calls .none counting 0).map Call.signature).Sublist [⟨"h", 0⟩, ⟨"g", 1⟩, ⟨"f", 0⟩] ∧
      (e.calls .none counting 0).map Call.signature = [⟨"h", 0⟩, ⟨"g", 1⟩, ⟨"f", 0⟩] := by
  intro e counting
  have hsignatures : e.signatures = [⟨"h", 0⟩, ⟨"g", 1⟩, ⟨"f", 0⟩] := by rfl
  have hstrict : e.Strict := by
    unfold Strict
    rw [nodes_eq_preorder]
    decide
  have hvalue : e.result .none counting 0 = .ok (.boolean false) := by rfl
  obtain ⟨hsublist, heq⟩ := calls_in_postorder e .none counting 0
  rw [hsignatures] at hsublist heq
  exact ⟨hsublist, heq _ hstrict hvalue⟩

end Formula.Expr
