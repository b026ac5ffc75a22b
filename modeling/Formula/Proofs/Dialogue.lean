import Formula.Evaluation
import Formula.Registry

set_option autoImplicit false

/-! # Evaluation as a dialogue

All that an evaluation has to do with the functions of its host is to call them and to go on with
the values that they give. So whatever the functions are, it is one and the same dialogue with them:
a tree that branches at every call on the value that comes back. That a function's failure ends the
evaluation and is reported as it is, and that the functions' answers decide which call comes next,
are facts about dialogues. -/

namespace Formula

/-- What a call is dispatched on. -/
def Call.signature (call : Call) : Signature := ⟨call.name, call.arguments.length⟩

/-- The error is not that of a function. -/
def EvalError.IsOwn (error : EvalError) : Prop := ∀ name source, error ≠ .function name source

/-- An evaluation from here on: it has a value, it fails by itself, or it makes a call and goes on
    with the value that it gets. -/
inductive Dialogue (α : Type) where
  | done (value : α)
  | failed (error : EvalError) (own : error.IsOwn)
  | ask (call : Call) (next : Value → Dialogue α)

/-- The answers to calls that are made one after the other. -/
def Resolver.answers {σ : Type} (resolver : Resolver σ) :
    List Call → σ → List (Except FunctionError Value)
  | [], _ => []
  | call :: calls, state =>
    let (answer, state) := resolver call.name call.arguments state
    answer :: resolver.answers calls state

namespace Dialogue

variable {σ τ α β : Type}

/-! ## Holding a dialogue -/

/-- What comes of a dialogue with the functions of a resolver, and the state that they have in the
    end. A function that fails ends it. -/
def outcome (resolver : Resolver σ) : Dialogue α → σ → Except EvalError α × σ
  | done value, state => (.ok value, state)
  | failed error _, state => (.error error, state)
  | ask call next, state =>
    match resolver call.name call.arguments state with
    | (.ok value, state) => (next value).outcome resolver state
    | (.error source, state) => (.error (.function call.name source), state)

/-- The calls that are made in a dialogue. -/
def calls (resolver : Resolver σ) : Dialogue α → σ → List Call
  | done _, _ => []
  | failed _ _, _ => []
  | ask call next, state =>
    call ::
      match resolver call.name call.arguments state with
      | (.ok value, state) => (next value).calls resolver state
      | (.error _, _) => []

/-- The calls are those that a recording has, and recording them changes nothing. -/
theorem outcome_recording (resolver : Resolver σ) (d : Dialogue α) (state : σ) (log : List Call) :
    d.outcome resolver.recording (state, log) =
      ((d.outcome resolver state).1, (d.outcome resolver state).2,
        log ++ d.calls resolver state) := by
  induction d generalizing state log with
  | done value => simp [outcome, calls]
  | failed error own => simp [outcome, calls]
  | ask call next ih =>
    simp only [outcome, calls, Resolver.recording]
    rcases resolver call.name call.arguments state with ⟨_ | value, after⟩
    · rfl
    · simp only [ih, List.append_assoc, List.singleton_append]

/-- One dialogue behind the other. -/
def bind (d : Dialogue α) (f : α → Dialogue β) : Dialogue β :=
  match d with
  | done value => f value
  | failed error own => failed error own
  | ask call next => ask call fun value => (next value).bind f

theorem outcome_bind (resolver : Resolver σ) (d : Dialogue α) (f : α → Dialogue β) (state : σ) :
    (d.bind f).outcome resolver state =
      match d.outcome resolver state with
      | (.ok value, state) => (f value).outcome resolver state
      | (.error error, state) => (.error error, state) := by
  induction d generalizing state with
  | done value => rfl
  | failed error own => rfl
  | ask call next ih =>
    simp only [bind, outcome]
    rcases resolver call.name call.arguments state with ⟨_ | value, after⟩
    · rfl
    · exact ih value after

/-! ## Failures and answers -/

/-- The call that fails is the last one, and its failure is what comes of the dialogue. -/
theorem failure_ends {resolver : Resolver σ} {d : Dialogue α} {state : σ} {k : Nat} {call : Call}
    {source : FunctionError} (hcall : (d.calls resolver state)[k]? = some call)
    (hanswer : (resolver.answers (d.calls resolver state) state)[k]? = some (.error source)) :
    (d.calls resolver state).length = k + 1 ∧
      (d.outcome resolver state).1 = .error (.function call.name source) := by
  induction d generalizing state k with
  | done value => cases hcall
  | failed error own => cases hcall
  | ask first next ih =>
    simp only [calls, outcome, Resolver.answers] at hcall hanswer ⊢
    rcases hfirst : resolver first.name first.arguments state with ⟨failure | value, after⟩ <;>
      simp only [hfirst] at hcall hanswer ⊢
    · cases k with
      | zero =>
        obtain rfl : first = call := by simpa using hcall
        obtain rfl : failure = source := by simpa using hanswer
        exact ⟨rfl, rfl⟩
      | succ k => simp at hcall
    · cases k with
      | zero => simp at hanswer
      | succ k =>
        obtain ⟨hlength, houtcome⟩ := ih value (by simpa using hcall) (by simpa using hanswer)
        exact ⟨by simpa using hlength, houtcome⟩

/-- If a function's failure is what comes of a dialogue, the last call has had it as its answer. -/
theorem exists_failure {resolver : Resolver σ} {d : Dialogue α} {state : σ} {name : String}
    {source : FunctionError} (h : (d.outcome resolver state).1 = .error (.function name source)) :
    ∃ call, (d.calls resolver state).getLast? = some call ∧ call.name = name ∧
      (resolver.answers (d.calls resolver state) state).getLast? = some (.error source) := by
  induction d generalizing state with
  | done value => cases h
  | failed error own => exact absurd (Except.error.inj h) (own name source)
  | ask first next ih =>
    simp only [calls, outcome, Resolver.answers] at h ⊢
    rcases hfirst : resolver first.name first.arguments state with ⟨failure | value, after⟩ <;>
      simp only [hfirst] at h ⊢
    · cases h
      exact ⟨first, rfl, rfl, rfl⟩
    · obtain ⟨call, hcall, hname, hanswer⟩ := ih value h
      exact ⟨call, by simp [List.getLast?_cons, hcall], hname,
        by simp [List.getLast?_cons, hanswer]⟩

/-- Where the answers to the first calls are the same, so is the next call. -/
theorem next_call {resolver : Resolver σ} {other : Resolver τ} {d : Dialogue α}
    {state : σ} {state' : τ} {k : Nat}
    (h : other.answers ((d.calls resolver state).take k) state' =
      resolver.answers ((d.calls resolver state).take k) state) :
    (d.calls other state')[k]? = (d.calls resolver state)[k]? := by
  induction d generalizing state state' k with
  | done value => rfl
  | failed error own => rfl
  | ask first next ih =>
    cases k with
    | zero => simp [calls]
    | succ k =>
      simp only [calls, List.take_succ_cons, Resolver.answers, List.cons.injEq] at h
      obtain ⟨hfirst, hothers⟩ := h
      simp only [calls, List.getElem?_cons_succ]
      rcases hanswer : resolver first.name first.arguments state with ⟨failure | value, after⟩ <;>
        rcases hanswer' :
          other first.name first.arguments state' with ⟨failure' | value', after'⟩ <;>
        simp only [hanswer, hanswer'] at hfirst hothers ⊢
      · cases hfirst
      · cases hfirst
      · cases hfirst
        exact ih value hothers

end Dialogue

end Formula
