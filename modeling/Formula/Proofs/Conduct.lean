import Formula.Proofs.Postorder
import Formula.Proofs.Raise

set_option autoImplicit false

/-! # How a tree conducts its dialogue

The dialogue of an evaluation keeps to a script: its calls are the calls of the tree in postorder,
with some left out where an operator does not need all of its operands, and the errors that it ends
with by itself are each raised by a node of the tree. Every step of the evaluator keeps to the
script of its part, so this is shown once, for the combinators that the evaluator is made of. -/

namespace Formula

/-! ## Scripts -/

/-- A part of a list, in order; the whole list, if `whole` holds. -/
structure Shortened {α : Type} (whole : Prop) (part script : List α) : Prop where
  sublist : part.Sublist script
  eq : whole → part = script

namespace Shortened

variable {α : Type} {whole : Prop} {part middle script others : List α}

theorem refl (script : List α) : Shortened whole script script := ⟨.refl _, fun _ => rfl⟩

theorem of_not (hwhole : ¬ whole) (h : part.Sublist script) : Shortened whole part script :=
  ⟨h, fun h => absurd h hwhole⟩

theorem trans (h : Shortened whole part middle) (h' : Shortened whole middle script) :
    Shortened whole part script :=
  ⟨h.sublist.trans h'.sublist, fun hwhole => (h.eq hwhole).trans (h'.eq hwhole)⟩

theorem append (h : Shortened whole part script) (others : List α) :
    Shortened whole (part ++ others) (script ++ others) :=
  ⟨h.sublist.append (.refl _), fun hwhole => by rw [h.eq hwhole]⟩

end Shortened

/-! ## Dialogues that keep to a script -/

namespace Dialogue

variable {σ α β : Type} {raised raised' : EvalError → Prop} {whole whole' : Prop}
  {script script' : List Signature}

/-- The calls are those of the script, in order; all of them, if `whole` holds and there is a value.
    The errors that are not those of a function are `raised`. -/
def Follows (raised : EvalError → Prop) (whole : Prop) : Dialogue α → List Signature → Prop
  | done _, script => Shortened whole [] script
  | failed error _, _ => raised error
  | ask call next, script => ∃ rest, Shortened whole (call.signature :: rest) script ∧
      ∀ value, (next value).Follows raised whole rest

theorem Follows.mono {d : Dialogue α} (h : d.Follows raised whole script)
    (hraised : ∀ error, raised error → raised' error) (hwhole : whole' → whole)
    (hscript : Shortened whole' script script') : d.Follows raised' whole' script' := by
  have hweaken {part script : List Signature} (h : Shortened whole part script) :
      Shortened whole' part script := ⟨h.sublist, fun h' => h.eq (hwhole h')⟩
  induction d generalizing script script' with
  | done value => exact (hweaken h).trans hscript
  | failed error own => exact hraised error h
  | ask call next ih =>
    obtain ⟨rest, hrest, hnext⟩ := h
    exact ⟨rest, (hweaken hrest).trans hscript, fun value => ih value (hnext value) (.refl rest)⟩

theorem Follows.bind {d : Dialogue α} {f : α → Dialogue β} (h : d.Follows raised whole script)
    (hf : ∀ value, (f value).Follows raised whole script') :
    (d.bind f).Follows raised whole (script ++ script') := by
  induction d generalizing script with
  | done value => exact (hf value).mono (fun _ => id) id (Shortened.append h script')
  | failed error own => exact h
  | ask call next ih =>
    obtain ⟨rest, hrest, hnext⟩ := h
    exact ⟨rest ++ script', hrest.append script', fun value => ih value (hnext value)⟩

variable {d : Dialogue α} {resolver : Resolver σ} {state : σ}

/-- The calls are a part of the script, in order. -/
theorem Follows.sublist_calls (h : d.Follows raised whole script) :
    ((d.calls resolver state).map Call.signature).Sublist script := by
  induction d generalizing script state with
  | done value => exact List.nil_sublist _
  | failed error own => exact List.nil_sublist _
  | ask call next ih =>
    obtain ⟨rest, hrest, hnext⟩ := h
    rw [calls, List.map_cons]
    refine .trans (.cons_cons call.signature ?_) hrest.sublist
    rcases resolver call.name call.arguments state with ⟨failure | value, after⟩
    · exact List.nil_sublist _
    · exact ih value (hnext value)

/-- If nothing is left out and there is a value, the calls are the script. -/
theorem Follows.calls_eq (h : d.Follows raised whole script) (hwhole : whole) {value : α}
    (hvalue : (d.outcome resolver state).1 = .ok value) :
    (d.calls resolver state).map Call.signature = script := by
  induction d generalizing script state with
  | done value => exact h.eq hwhole
  | failed error own => cases hvalue
  | ask call next ih =>
    obtain ⟨rest, hrest, hnext⟩ := h
    simp only [calls, outcome, List.map_cons] at hvalue ⊢
    rcases hanswer : resolver call.name call.arguments state with ⟨failure | answer, after⟩ <;>
      simp only [hanswer] at hvalue ⊢
    · cases hvalue
    · rw [ih answer (hnext answer) hvalue, hrest.eq hwhole]

/-- An error is `raised`, or it is the failure of a function in the script. -/
theorem Follows.raised_or_function (h : d.Follows raised whole script) {error : EvalError}
    (herror : (d.outcome resolver state).1 = .error error) :
    raised error ∨ ∃ name source, error = .function name source ∧
      ∃ signature ∈ script, signature.name = name := by
  induction d generalizing script state with
  | done value => cases herror
  | failed own hown =>
    obtain rfl := Except.error.inj herror
    exact .inl h
  | ask call next ih =>
    obtain ⟨rest, hrest, hnext⟩ := h
    simp only [outcome] at herror
    rcases hanswer : resolver call.name call.arguments state with ⟨failure | answer, after⟩ <;>
      simp only [hanswer] at herror
    · obtain rfl := Except.error.inj herror
      exact .inr ⟨call.name, failure, rfl, call.signature,
        hrest.sublist.subset (List.mem_cons_self ..), rfl⟩
    · rcases ih answer (hnext answer) herror with h | ⟨name, source, rfl, signature, hmem, rfl⟩
      · exact .inl h
      · exact .inr ⟨_, source, rfl, signature,
          hrest.sublist.subset (List.mem_cons_of_mem _ hmem), rfl⟩

end Dialogue

/-! ## Evaluations that keep to a script -/

namespace Evaluation

variable {σ α β : Type}

theorem run_bind (m : Evaluation σ α) (f : α → Evaluation σ β) (state : σ) :
    (m >>= f).run.run state =
      match m.run.run state with
      | (.ok value, state) => (f value).run.run state
      | (.error error, state) => (.error error, state) := by
  show ExceptT.bindCont f (m.run.run state).1 (m.run.run state).2 = _
  rcases m.run.run state with ⟨_ | value, after⟩ <;> rfl

/-- Whatever the resolver, the evaluation is one dialogue with its functions, and the
    dialogue follows the script. -/
def Conducts (m : (σ : Type) → Resolver σ → Evaluation σ α) (raised : EvalError → Prop)
    (whole : Prop) (script : List Signature) : Prop :=
  ∃ d : Dialogue α, (∀ σ (resolver : Resolver σ) state,
      (m σ resolver).run.run state = d.outcome resolver state) ∧ d.Follows raised whole script

variable {m : (σ : Type) → Resolver σ → Evaluation σ α}
  {f : α → (σ : Type) → Resolver σ → Evaluation σ β} {raised raised' : EvalError → Prop}
  {whole whole' : Prop} {script script' : List Signature}

theorem Conducts.mono (h : Conducts m raised whole script)
    (hraised : ∀ error, raised error → raised' error) (hwhole : whole' → whole)
    (hscript : Shortened whole' script script') : Conducts m raised' whole' script' := by
  obtain ⟨d, hd, hfollows⟩ := h
  exact ⟨d, hd, hfollows.mono hraised hwhole hscript⟩

theorem conducts_pure (value : α) : Conducts (fun _ _ => pure value) raised whole [] :=
  ⟨.done value, fun _ _ _ => rfl, .refl []⟩

theorem conducts_throw {error : EvalError} (own : error.IsOwn) (h : raised error)
    (script : List Signature) :
    Conducts (fun _ _ => (throw error : Evaluation _ α)) raised whole script :=
  ⟨.failed error own, fun _ _ _ => rfl, h⟩

theorem conducts_bind (h : Conducts m raised whole script)
    (hf : ∀ value, Conducts (f value) raised whole script') :
    Conducts (fun σ resolver => m σ resolver >>= fun value => f value σ resolver) raised whole
      (script ++ script') := by
  obtain ⟨d, hd, hfollows⟩ := h
  -- each value has its dialogue, and they are put behind the first one together
  refine ⟨d.bind fun value => (hf value).choose, fun σ resolver state => ?_,
    hfollows.bind fun value => (hf value).choose_spec.2⟩
  rw [run_bind, hd, Dialogue.outcome_bind]
  rcases d.outcome resolver state with ⟨_ | value, after⟩
  · rfl
  · exact (hf value).choose_spec.1 σ resolver after

/-- A step that calls no function. -/
theorem conducts_lift {x : Except EvalError α}
    (h : ∀ error, x = .error error → error.IsOwn ∧ raised error) :
    Conducts (fun _ _ => liftM x) raised whole [] := by
  cases x with
  | ok value => exact conducts_pure value
  | error error => exact conducts_throw (h error rfl).1 (h error rfl).2 []

theorem conducts_call (name : String) (arguments : List Value) :
    Conducts (fun _ resolver => call resolver name arguments) raised whole
      [⟨name, arguments.length⟩] := by
  refine ⟨.ask ⟨name, arguments⟩ .done, fun σ resolver state => ?_, [], .refl _, fun _ => .refl []⟩
  show ((resolver name arguments state).1.mapError _, (resolver name arguments state).2) = _
  simp only [Dialogue.outcome]
  rcases resolver name arguments state with ⟨_ | value, after⟩ <;> rfl

/-! ## Operands and operators -/

section Operators

variable {left right operand : (σ : Type) → Resolver σ → Evaluation σ Value}

/-- A step that can only fail to convert. -/
theorem conducts_convert {x : Except EvalError α} (h : ∀ error, x = .error error → error.IsCoercion)
    (hraised : ∀ error : EvalError, error.IsCoercion → raised error) :
    Conducts (fun _ _ => liftM x) raised whole [] :=
  conducts_lift fun error herror => ⟨(h error herror).isOwn, hraised error (h error herror)⟩

theorem conducts_decimal (h : Conducts operand raised whole script)
    (hraised : ∀ error : EvalError, error.IsCoercion → raised error) :
    Conducts (fun σ resolver => decimal (operand σ resolver)) raised whole script := by
  have hall := conducts_bind h fun value =>
    conducts_convert (x := value.toDecimal) (fun _ => isCoercion_of_toDecimal) hraised
  rwa [List.append_nil] at hall

theorem conducts_boolean (h : Conducts operand raised whole script)
    (hraised : ∀ error : EvalError, error.IsCoercion → raised error) :
    Conducts (fun σ resolver => boolean (operand σ resolver)) raised whole script := by
  have hall := conducts_bind h fun value =>
    conducts_convert (x := value.toBool) (fun _ => isCoercion_of_toBool) hraised
  rwa [List.append_nil] at hall

/-- A truth value decides which of two evaluations comes next; the script of
    each may be left out. -/
theorem conducts_choice {m' : (σ : Type) → Resolver σ → Evaluation σ α} (hwhole : ¬ whole)
    (h : Conducts m raised whole script) (h' : Conducts m' raised whole script') (b : Bool) :
    Conducts (fun σ resolver => if b then m σ resolver else m' σ resolver) raised whole
      (script ++ script') := by
  cases b with
  | true => exact h.mono (fun _ => id) id (.of_not hwhole (List.sublist_append_left _ _))
  | false => exact h'.mono (fun _ => id) id (.of_not hwhole (List.sublist_append_right _ _))

/-- An operator evaluates its left operand and then its right one, which a
    logical operator may leave out. -/
theorem conducts_binary {operation : BinaryOperation} (hleft : Conducts left raised whole script)
    (hright : Conducts right raised whole script')
    (hwhole : operation = .both ∨ operation = .either → ¬ whole)
    (hcoercion : ∀ error : EvalError, error.IsCoercion → raised error)
    (harithmetic : ∀ arithmetic : Arithmetic, operation = .arithmetic arithmetic →
      ∀ (a b : Decimal) (error : EvalError), arithmetic.apply a b = .error error → raised error) :
    Conducts (fun σ resolver => binary operation (left σ resolver) (right σ resolver)) raised whole
      (script ++ script') := by
  have hlogical : Conducts (fun σ resolver => do
      return Value.boolean (← boolean (right σ resolver)))
      raised whole script' := by
    have hall := conducts_bind (conducts_boolean hright hcoercion) fun b =>
      conducts_pure (Value.boolean b)
    rwa [List.append_nil] at hall
  cases operation with
  | both =>
    refine conducts_bind (conducts_boolean hleft hcoercion) fun b => ?_
    have hall := conducts_choice (hwhole (.inl rfl)) hlogical (conducts_pure (.boolean false)) b
    rwa [List.append_nil] at hall
  | either =>
    refine conducts_bind (conducts_boolean hleft hcoercion) fun b => ?_
    exact conducts_choice (hwhole (.inr rfl)) (conducts_pure (.boolean true)) hlogical b
  | arithmetic operation =>
    refine conducts_bind (conducts_decimal hleft hcoercion) fun a => ?_
    have hall := conducts_bind (conducts_decimal hright hcoercion) fun b =>
      conducts_lift (x := operation.apply a b) fun error herror =>
        ⟨?_, harithmetic operation rfl a b error herror⟩
    · rwa [List.append_nil] at hall
    · rcases eq_of_arithmetic herror with ⟨-, rfl⟩ | rfl <;> (intro name source; simp)
  | comparison comparison =>
    refine conducts_bind hleft fun a => ?_
    have hall := conducts_bind hright fun b => conducts_bind
      (conducts_convert (x := comparison.holds a b) (fun _ => isCoercion_of_holds) hcoercion)
        fun b => conducts_pure (Value.boolean b)
    rwa [List.append_nil, List.append_nil] at hall

end Operators

end Evaluation

/-! ## Trees -/

namespace Expr

open Evaluation

variable {β : Type} {raised : EvalError → Prop} {whole : Prop} {script : List Signature}
  {bindings : Bindings}

/-- The arguments of a call are evaluated in order, whatever is done with their values. -/
theorem conducts_evaluateAll {es : List Expr}
    {f : List Value → (σ : Type) → Resolver σ → Evaluation σ β}
    (h : ∀ e ∈ es,
      Conducts (fun _ resolver => e.evaluate bindings resolver) raised whole e.signatures)
    (hf : ∀ values, values.length = es.length → Conducts (f values) raised whole script) :
    Conducts
      (fun σ resolver => evaluateAll bindings resolver es >>= fun values => f values σ resolver)
      raised whole (es.flatMap signatures ++ script) := by
  induction es generalizing f with
  | nil => exact hf [] rfl
  | cons e es ih =>
    have hothers (value : Value) := ih (f := fun values => f (value :: values))
      (fun e he => h e (List.mem_cons_of_mem _ he))
      (fun values hlength => hf (value :: values) (by simp [hlength]))
    have hall := conducts_bind (h e (List.mem_cons_self ..)) hothers
    simpa [evaluateAll, List.flatMap_cons] using hall

/-- The two logical operators are no strict ones. -/
theorem not_isStrict_of_lazy {operator : String} {operation : BinaryOperation} {left right : Expr}
    (h : BinaryOperation.ofText? operator = some operation)
    (hlazy : operation = .both ∨ operation = .either) :
    isStrict (.binary operator left right) = false := by
  unfold BinaryOperation.ofText? at h
  rcases hlazy with rfl | rfl
  · split at h <;> cases h
    rfl
  · split at h <;> cases h
    rfl

/-- **The evaluation of a tree is a dialogue by script.** It calls functions in the order of the
    tree's calls in postorder, all of them if it has a value and no operator is lazy, and if it
    fails, the error is raised by a node or is that of a function. -/
theorem conducts_evaluate (bindings : Bindings) (e : Expr) :
    Conducts (fun _ resolver => e.evaluate bindings resolver)
      (fun error => ∃ node ∈ e.nodes, node.Raises bindings error) e.Strict e.signatures := by
  induction e using induction_parts with
  | step e ih =>
    have hpart (part : Expr) (hpart : part ∈ e.parts) :
        Conducts (fun _ resolver => part.evaluate bindings resolver)
          (fun error => ∃ node ∈ e.nodes, node.Raises bindings error) e.Strict part.signatures :=
      (ih part hpart).mono (fun error ⟨node, hnode, h⟩ => ⟨node, mem_nodes_of_part hpart hnode, h⟩)
        (·.part hpart) (.refl _)
    have hself {error : EvalError} (h : e.Raises bindings error) :
        ∃ node ∈ e.nodes, node.Raises bindings error := ⟨e, mem_nodes_self e, h⟩
    cases e with
    | constant value => exact conducts_pure value
    | parameter name =>
      simp only [evaluate]
      cases hname : bindings name with
      | some value => exact conducts_pure value
      | none => exact conducts_throw (Raises.unbound hname).isOwn (hself (.unbound hname)) []
    | unsupported explanation =>
      have hraises : Raises bindings (.unsupported explanation) (.unsupported explanation) :=
        .unsupported explanation
      exact conducts_throw hraises.isOwn (hself hraises) []
    | unary operator operand =>
      simp only [evaluate, signatures_unary]
      cases hoperator : UnaryOperation.ofText? operator with
      | none =>
        have hraises :
            Raises bindings (.unary operator operand) (.unsupportedUnaryOperator operator) :=
          .unaryOperator hoperator
        exact conducts_throw hraises.isOwn (hself hraises) _
      | some operation =>
        have hall := conducts_bind (hpart operand (by simp [parts])) fun value =>
          conducts_convert (x := operation.apply value) (fun _ => isCoercion_of_unary)
            fun error h => hself (.coercion (by simp [kind]) h)
        rwa [List.append_nil] at hall
    | binary operator left right =>
      simp only [evaluate, signatures_binary]
      have hleft := hpart left (by simp [parts])
      have hright := hpart right (by simp [parts])
      cases hoperator : BinaryOperation.ofText? operator with
      | none =>
        have hraises :
            Raises bindings (.binary operator left right) (.unsupportedBinaryOperator operator) :=
          .binaryOperator hoperator
        exact conducts_throw hraises.isOwn (hself hraises) _
      | some operation =>
        refine conducts_binary hleft hright ?_
          (fun error h => hself (.coercion (by simp [kind]) h)) ?_
        · intro hlazy hstrict
          exact absurd hstrict.isStrict (by simp [not_isStrict_of_lazy hoperator hlazy])
        · rintro arithmetic rfl a b error h
          rcases eq_of_arithmetic h with ⟨hdivides, rfl⟩ | rfl
          · exact hself (.division hoperator hdivides)
          · exact hself (.overflow hoperator)
    | conditional condition ifTrue ifFalse =>
      have hlazy : ¬ Strict (.conditional condition ifTrue ifFalse) := by
        intro h
        exact absurd h.isStrict (by simp [isStrict])
      rw [signatures_conditional]
      refine conducts_bind (conducts_boolean (hpart condition (by simp [parts])) fun error h =>
        hself (.coercion (by simp [kind]) h)) fun b => ?_
      exact conducts_choice hlazy (hpart ifTrue (by simp [parts]))
        (hpart ifFalse (by simp [parts])) b
    | call name arguments =>
      rw [signatures_call]
      refine conducts_evaluateAll (fun part hmem => hpart part hmem) fun values hlength => ?_
      rw [← hlength]
      exact conducts_call name values

end Expr

end Formula
