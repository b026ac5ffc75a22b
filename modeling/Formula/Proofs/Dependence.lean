import Formula.Proofs.Calls

set_option autoImplicit false

/-! # What an evaluation depends on

Of the values that parameters have, an evaluation looks at those of the tree's own parameters, and
of the functions of a registry at those that its calls name with their numbers of arguments. So what
a caller collects from a tree before evaluating it is enough: all other values and functions can
change without the result changing. -/

namespace Formula

namespace Dialogue

variable {σ τ α : Type} {raised : EvalError → Prop} {whole : Prop} {script : List Signature}

/-- Functions that answer the calls of the script alike, whatever their states, make no difference
    to what comes of a dialogue. -/
theorem Follows.outcome_congr {d : Dialogue α} (h : d.Follows raised whole script)
    {resolver : Resolver σ} {other : Resolver τ}
    (halike : ∀ call : Call, call.signature ∈ script → ∀ state state',
      (resolver call.name call.arguments state).1 = (other call.name call.arguments state').1)
    (state : σ) (state' : τ) :
    (d.outcome resolver state).1 = (d.outcome other state').1 := by
  induction d generalizing script state state' with
  | done value => rfl
  | failed error own => rfl
  | ask call next ih =>
    obtain ⟨rest, hrest, hnext⟩ := h
    have hmem : call.signature ∈ script := hrest.sublist.subset (List.mem_cons_self ..)
    have hothers (later : Call) (hlater : later.signature ∈ rest) :=
      halike later (hrest.sublist.subset (List.mem_cons_of_mem _ hlater))
    have hanswer := halike call hmem state state'
    simp only [outcome]
    rcases hfirst : resolver call.name call.arguments state with ⟨failure | value, after⟩ <;>
      rcases hfirst' : other call.name call.arguments state' with ⟨failure' | value', after'⟩ <;>
      rw [hfirst, hfirst'] at hanswer <;> cases hanswer
    · rfl
    · exact ih value (hnext value) hothers after after'

end Dialogue

/-! ## Registries -/

namespace Registry

variable {σ τ : Type} {r : Registry σ} {other : Registry τ}

/-- Both registries have a function under the signature, and to the same arguments the two answer
    the same, whatever states they are in; or neither registry has one. -/
def AgreeOn (r : Registry σ) (other : Registry τ) (signature : Signature) : Prop :=
  match r.find? signature, other.find? signature with
  | some f, some g => ∀ arguments : List Value, arguments.length = signature.arity →
      ∀ state state', (f arguments state).1 = (g arguments state').1
  | none, none => True
  | _, _ => False

/-- Registries that agree on a signature answer calls with it alike. -/
theorem AgreeOn.invoke_congr {call : Call} (h : r.AgreeOn other call.signature) (state : σ)
    (state' : τ) :
    (r.invoke call.name call.arguments state).1 =
      (other.invoke call.name call.arguments state').1 := by
  unfold AgreeOn Call.signature at h
  unfold invoke
  cases hfound : r.find? ⟨call.name, call.arguments.length⟩ with
  | none =>
    cases hfound' : other.find? ⟨call.name, call.arguments.length⟩ with
    | none => rfl
    | some g => simp [hfound, hfound'] at h
  | some f =>
    cases hfound' : other.find? ⟨call.name, call.arguments.length⟩ with
    | none => simp [hfound, hfound'] at h
    | some g =>
      rw [hfound, hfound'] at h
      exact h call.arguments rfl state state'

end Registry

/-! ## Trees -/

namespace Expr

variable {σ τ : Type} {bindings bindings' : Bindings}

theorem mem_parameters_of_part {e part : Expr} (hpart : part ∈ e.parts) {name : String}
    (h : name ∈ part.parameters) : name ∈ e.parameters :=
  mem_parameters_iff.2 (mem_nodes_of_part hpart (mem_parameters_iff.1 h))

/-- Trees that are evaluated like the trees that they are made of have the same values. -/
theorem evaluateAll_map {resolver : Resolver σ} {f : Expr → Expr} {es : List Expr}
    (h : ∀ e ∈ es, (f e).evaluate bindings resolver = e.evaluate bindings' resolver) :
    evaluateAll bindings resolver (es.map f) = evaluateAll bindings' resolver es := by
  induction es with
  | nil => rfl
  | cons e es ih =>
    rw [List.map_cons, evaluateAll, evaluateAll, h e (List.mem_cons_self ..),
      ih fun other hother => h other (List.mem_cons_of_mem _ hother)]

/-- Values of other names than the tree's parameters make no difference to its evaluation. -/
theorem evaluate_congr (e : Expr) (h : ∀ name ∈ e.parameters, bindings name = bindings' name)
    (resolver : Resolver σ) : e.evaluate bindings resolver = e.evaluate bindings' resolver := by
  induction e using induction_parts with
  | step e ih =>
    have hpart (part : Expr) (hpart : part ∈ e.parts) :
        part.evaluate bindings resolver = part.evaluate bindings' resolver :=
      ih part hpart fun name hname => h name (mem_parameters_of_part hpart hname)
    cases e with
    | constant value => rfl
    | unsupported explanation => rfl
    | parameter name =>
      have hname : name ∈ parameters (.parameter name) := mem_parameters_iff.2 (mem_nodes_self _)
      rw [evaluate, evaluate, h name hname]
    | unary operator operand =>
      rw [evaluate, evaluate, hpart operand (by simp [parts])]
    | binary operator left right =>
      rw [evaluate, evaluate, hpart left (by simp [parts]), hpart right (by simp [parts])]
    | conditional condition ifTrue ifFalse =>
      rw [evaluate, evaluate, hpart condition (by simp [parts]), hpart ifTrue (by simp [parts]),
        hpart ifFalse (by simp [parts])]
    | call name arguments =>
      have hall : evaluateAll bindings resolver (arguments.map id) =
          evaluateAll bindings' resolver arguments :=
        evaluateAll_map hpart
      rw [List.map_id] at hall
      rw [evaluate, evaluate, hall]

/-- An evaluation depends only on what the tree mentions: values that are the same
    for all its parameters, and registries that agree on all its calls, give the
    same value or the same error. -/
theorem result_eq_of_agree (e : Expr) {r : Registry σ} {other : Registry τ}
    (hvalues : ∀ name ∈ e.parameters, bindings name = bindings' name)
    (hfunctions : ∀ name arguments, .call name arguments ∈ e.nodes →
      r.AgreeOn other ⟨name, arguments.length⟩) (state : σ) (state' : τ) :
    e.result bindings r.invoke state = e.result bindings' other.invoke state' := by
  obtain ⟨d, hfollows, hd⟩ := exists_dialogue e bindings'
  have hsame : e.result bindings r.invoke state = e.result bindings' r.invoke state := by
    rw [result, result, evaluate_congr e hvalues]
  rw [hsame, (hd r.invoke state).1, (hd other.invoke state').1]
  refine hfollows.outcome_congr (fun call hcall => ?_) state state'
  obtain ⟨arguments, hnode, hlength⟩ := e.exists_call_of_mem_signatures hcall
  have hagree := hfunctions _ arguments hnode
  rw [hlength] at hagree
  exact fun state state' => hagree.invoke_congr state state'

/-- A value, a function and a number of arguments that the tree does not mention, and a state. -/
theorem result_eq_of_agree_total :
    let e : Expr := .binary "+" (.parameter "a") (.call "f" [.conditional (.parameter "b")
      (.call "g" []) (.parameter "a")])
    let bindings : Bindings := .ofList [("a", .string "2"), ("b", .boolean false)]
    let bindings' : Bindings :=
      .ofList [("c", .boolean true), ("b", .boolean false), ("a", .string "2")]
    let r : Registry Unit :=
      ⟨[(⟨"f", 1⟩, fun arguments state => (.ok (arguments.headD (.boolean true)), state))],
        by decide⟩
    let other : Registry Nat :=
      ⟨[(⟨"f", 2⟩, fun _ count => (.error (.invalid "closed"), count)),
        (⟨"f", 1⟩, fun arguments count => (.ok (arguments.headD (.boolean false)), count + 1))],
        by decide⟩
    (∀ name ∈ e.parameters, bindings name = bindings' name) ∧
      (∀ name arguments, .call name arguments ∈ e.nodes →
        r.AgreeOn other ⟨name, arguments.length⟩) ∧
      e.result bindings r.invoke () = e.result bindings' other.invoke 7 := by
  intro e bindings bindings' r other
  have hvalues : ∀ name ∈ e.parameters, bindings name = bindings' name := by
    rw [parameters, nodes_eq_preorder]
    decide
  have hfunctions (name : String) (arguments : List Expr) (h : .call name arguments ∈ e.nodes) :
      r.AgreeOn other ⟨name, arguments.length⟩ := by
    have hcalls : (name = "f" ∧ arguments.length = 1) ∨ (name = "g" ∧ arguments.length = 0) := by
      rw [nodes_eq_preorder] at h
      simp only [preorder, preorderAll, List.cons_append, List.nil_append, List.append_nil,
        List.mem_cons, reduceCtorEq, call.injEq, List.not_mem_nil, or_self, or_false, false_or,
        e] at h
      rcases h with ⟨rfl, rfl⟩ | ⟨rfl, rfl⟩
      · exact .inl ⟨rfl, rfl⟩
      · exact .inr ⟨rfl, rfl⟩
    rcases hcalls with ⟨rfl, hlength⟩ | ⟨rfl, hlength⟩ <;> rw [hlength]
    · show ∀ values : List Value, values.length = 1 → ∀ (_ : Unit) (_ : Nat),
        Except.ok (values.headD (.boolean true)) = .ok (values.headD (.boolean false))
      rintro (_ | ⟨value, values⟩) hvalues
      · cases hvalues
      · exact fun _ _ => rfl
    · trivial
  exact ⟨hvalues, hfunctions, result_eq_of_agree e hvalues hfunctions () 7⟩

end Expr

end Formula
