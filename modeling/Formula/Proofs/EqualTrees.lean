import Formula.Proofs.Comparison
import Formula.Proofs.Quotient

set_option autoImplicit false

/-! # Equal trees evaluate equally

Equality of trees does not see at which scale a number is held, nor the sign of a zero. Neither does
any step of an evaluation: conversions, comparisons and arithmetic answer with the same values on
the same values, or they fail in the same way, and messages show a number by its value alone. -/

namespace Formula

/-! ## Numbers of one value -/

namespace Decimal

variable {a b c d : Decimal}

theorem same_refl (d : Decimal) : d.same d = true :=
  same_iff_value_eq.2 rfl

/-- The order of numbers is that of their values. -/
theorem cmp_eq (a b : Decimal) : a.cmp b = compare a.value b.value := by
  have hpower : (0 : ℚ) < 10 ^ max a.scale b.scale := by positivity
  have hvalue (d : Decimal) (h : d.scale ≤ max a.scale b.scale) :
      (d.signedAt (max a.scale b.scale) : ℚ) = d.value * 10 ^ max a.scale b.scale :=
    cast_signedAt d h
  have ha := hvalue a (Nat.le_max_left ..)
  have hb := hvalue b (Nat.le_max_right ..)
  rw [cmp]
  rcases lt_trichotomy a.value b.value with h | h | h
  · rw [compare_lt_iff_lt.2 h, compare_lt_iff_lt, ← Int.cast_lt (R := ℚ), ha, hb]
    exact mul_lt_mul_of_pos_right h hpower
  · rw [compare_eq_iff_eq.2 h, compare_eq_iff_eq, ← Int.cast_inj (α := ℚ), ha, hb, h]
  · rw [compare_gt_iff_gt.2 h, compare_gt_iff_gt, ← Int.cast_lt (R := ℚ), ha, hb]
    exact mul_lt_mul_of_pos_right h hpower

theorem cmp_congr (h : a.same b = true) (h' : c.same d = true) : a.cmp c = b.cmp d := by
  rw [cmp_eq, cmp_eq, same_iff_value_eq.1 h, same_iff_value_eq.1 h']

theorem same_congr (h : a.same b = true) (h' : c.same d = true) : a.same c = b.same d := by
  rw [same, same, cmp_congr h h']

theorem isZero_congr (h : a.same b = true) : a.isZero = b.isZero := by
  rw [Bool.eq_iff_iff, isZero_iff_value, isZero_iff_value, same_iff_value_eq.1 h]

/-- A number is shown by its value. -/
theorem display_congr (h : a.same b = true) : a.display = b.display := by
  rw [display, display, same_iff_normalize_eq.1 h]

end Decimal

/-! ## Outcomes -/

/-- The kinds of evaluation errors. -/
inductive EvalError.Kind where
  | unboundParameter
  | unsupportedUnaryOperator
  | unsupportedBinaryOperator
  | divisionByZero
  | overflow
  | coercion
  | unsupported
  | function
  deriving DecidableEq

/-- The kind of an error. -/
def EvalError.kind : EvalError → EvalError.Kind
  | unboundParameter _ => .unboundParameter
  | unsupportedUnaryOperator _ => .unsupportedUnaryOperator
  | unsupportedBinaryOperator _ => .unsupportedBinaryOperator
  | divisionByZero => .divisionByZero
  | overflow _ => .overflow
  | coercion _ _ => .coercion
  | unsupported _ => .unsupported
  | function _ _ => .function

theorem EvalError.message_coercion (found : Value) (expected : ValueKind) :
    (coercion found expected).message =
      "cannot convert " ++ found.describe ++ " to " ++ expected.name :=
  rfl

/-- Two outcomes are related results, or errors of one kind with one message. -/
inductive Alike {α : Type} (related : α → α → Prop) :
    Except EvalError α → Except EvalError α → Prop where
  | ok {a b : α} (h : related a b) : Alike related (.ok a) (.ok b)
  | error {e f : EvalError} (hkind : e.kind = f.kind) (hmessage : e.message = f.message) :
      Alike related (.error e) (.error f)

namespace Alike

variable {α β : Type} {related : α → α → Prop} {related' : β → β → Prop} {x y : Except EvalError α}

theorem refl (h : ∀ a, related a a) (x : Except EvalError α) : Alike related x x := by
  cases x with
  | ok a => exact .ok (h a)
  | error e => exact .error rfl rfl

/-- One step after another. -/
theorem bind {f g : α → Except EvalError β} (h : Alike related x y)
    (hnext : ∀ a b, related a b → Alike related' (f a) (g b)) :
    Alike related' (x >>= f) (y >>= g) := by
  cases h with
  | ok h => exact hnext _ _ h
  | error hkind hmessage => exact .error hkind hmessage

end Alike

/-! ## Equal values -/

namespace Value

/-- The values are equal. -/
def Same (v w : Value) : Prop := v.same w = true

variable {v w v' w' : Value}

theorem same_refl (v : Value) : Same v v := by
  cases v with
  | number n => exact n.same_refl
  | string s => exact beq_self_eq_true s
  | boolean b => exact beq_self_eq_true b

/-- Equal values are two numbers of one value, or one value. -/
theorem same_cases (h : Same v w) :
    (∃ m n, v = number m ∧ w = number n ∧ m.same n = true) ∨ v = w := by
  unfold Same at h
  cases v <;> cases w <;> simp only [same, beq_iff_eq, Bool.false_eq_true] at h
  case number.number m n => exact .inl ⟨m, n, rfl, rfl, h⟩
  case string.string s t => exact .inr (congrArg string h)
  case boolean.boolean b c => exact .inr (congrArg boolean h)

theorem kind_congr (h : Same v w) : v.kind = w.kind := by
  rcases same_cases h with ⟨m, n, rfl, rfl, -⟩ | rfl <;> rfl

/-- Messages name a value by its kind and what it shows. -/
theorem describe_congr (h : Same v w) : v.describe = w.describe := by
  rcases same_cases h with ⟨m, n, rfl, rfl, hsame⟩ | rfl
  · show ValueKind.number.name ++ " " ++ m.display = ValueKind.number.name ++ " " ++ n.display
    rw [Decimal.display_congr hsame]
  · rfl

/-- Conversions to another kind fail alike. -/
theorem alike_coercion {α : Type} {related : α → α → Prop} (h : Same v w) (expected : ValueKind) :
    Alike related (.error (.coercion v expected)) (.error (.coercion w expected)) := by
  refine .error rfl ?_
  rw [EvalError.message_coercion, EvalError.message_coercion, describe_congr h]

/-! ## Conversions -/

theorem alike_toDecimal (h : Same v w) :
    Alike (fun m n => m.same n = true) v.toDecimal w.toDecimal := by
  rcases same_cases h with ⟨m, n, rfl, rfl, hsame⟩ | rfl
  · exact .ok hsame
  · exact .refl Decimal.same_refl _

theorem alike_toBool (h : Same v w) : Alike (fun p q => p = q) v.toBool w.toBool := by
  rcases same_cases h with ⟨m, n, rfl, rfl, -⟩ | rfl
  · exact alike_coercion h .boolean
  · exact .refl (fun _ => rfl) _

/-! ## Comparisons -/

theorem same_congr (h : Same v w) (h' : Same v' w') : v.same v' = w.same w' := by
  rcases same_cases h with ⟨m, n, rfl, rfl, hsame⟩ | rfl <;>
    rcases same_cases h' with ⟨m', n', rfl, rfl, hsame'⟩ | rfl
  · exact Decimal.same_congr hsame hsame'
  · cases v' with
    | number n' => exact Decimal.same_congr hsame n'.same_refl
    | _ => rfl
  · cases v with
    | number m => exact Decimal.same_congr m.same_refl hsame'
    | _ => rfl
  · rfl

theorem equals_congr (h : Same v w) (h' : Same v' w') : v.equals v' = w.equals w' := by
  by_cases hkind : v.kind = v'.kind
  · have hkind' : w.kind = w'.kind := by rw [← kind_congr h, hkind, kind_congr h']
    rw [equals_of_kind_eq hkind, equals_of_kind_eq hkind', same_congr h h']
  · have hkind' : w.kind ≠ w'.kind := by rwa [← kind_congr h, ← kind_congr h']
    rw [equals_of_kind_ne hkind, equals_of_kind_ne hkind']
    generalize hx : v.toDecimal = x, hy : w.toDecimal = y,
      hx' : v'.toDecimal = x', hy' : w'.toDecimal = y'
    have hleft := alike_toDecimal h
    have hright := alike_toDecimal h'
    rw [hx, hy] at hleft
    rw [hx', hy'] at hright
    cases hleft <;> cases hright
    case ok.ok hsame _ _ hsame' => exact Decimal.same_congr hsame hsame'
    all_goals rfl

theorem alike_order (h : Same v w) (h' : Same v' w') :
    Alike (fun p q => p = q) (v.order v') (w.order w') := by
  by_cases hstrings : v.kind ≠ .string ∨ v'.kind ≠ .string
  · rw [order_eq hstrings, order_eq (by rwa [← kind_congr h, ← kind_congr h'])]
    refine (alike_toDecimal h).bind fun m n hsame =>
      (alike_toDecimal h').bind fun m' n' hsame' => ?_
    exact .ok (Decimal.cmp_congr hsame hsame')
  · -- strings are equal only to themselves
    rcases same_cases h with ⟨m, n, rfl, rfl, -⟩ | rfl
    · simp [kind] at hstrings
    · rcases same_cases h' with ⟨m', n', rfl, rfl, -⟩ | rfl
      · simp [kind] at hstrings
      · exact .refl (fun _ => rfl) _

end Value

/-! ## Operators -/

section Operators

variable {v w v' w' : Value} {a b c d : Decimal}

theorem UnaryOperation.alike_apply (operation : UnaryOperation) (h : Value.Same v w) :
    Alike Value.Same (operation.apply v) (operation.apply w) := by
  cases operation with
  | negate =>
    refine (Value.alike_toDecimal h).bind fun m n hsame => .ok ?_
    show m.neg.same n.neg = true
    rw [Decimal.same_iff_value_eq, Decimal.value_neg, Decimal.value_neg,
      Decimal.same_iff_value_eq.1 hsame]
  | complement =>
    refine (Value.alike_toBool h).bind fun p q heq => .ok ?_
    rw [heq]
    exact Value.same_refl _

theorem Arithmetic.alike_apply (operation : Arithmetic) (h : a.same b = true)
    (h' : c.same d = true) :
    Alike Value.Same (operation.apply a c) (operation.apply b d) := by
  unfold Arithmetic.apply
  rw [Decimal.isZero_congr h']
  split
  · exact .error rfl rfl
  · -- the results have one value, if there are any
    have hvalue :
        (operation.compute? a c).map Decimal.value =
          (operation.compute? b d).map Decimal.value := by
      rw [operation.value_compute?, operation.value_compute?, Decimal.same_iff_value_eq.1 h,
        Decimal.same_iff_value_eq.1 h']
    cases hleft : operation.compute? a c <;> cases hright : operation.compute? b d <;>
      rw [hleft, hright] at hvalue
    case none.none => exact .error rfl rfl
    case some.some m n => exact .ok (Decimal.same_iff_value_eq.2 (Option.some.inj hvalue))
    all_goals cases hvalue

theorem Comparison.alike_holds (comparison : Comparison) (h : Value.Same v w)
    (h' : Value.Same v' w') :
    Alike (fun p q => p = q) (comparison.holds v v') (comparison.holds w w') := by
  have horder (f : Ordering → Bool) :
      Alike (fun p q => p = q) (do return f (← v.order v')) (do return f (← w.order w')) :=
    (Value.alike_order h h').bind fun o o' heq => .ok (congrArg f heq)
  cases comparison with
  | equal => exact .ok (Value.equals_congr h h')
  | notEqual => exact .ok (congrArg (! ·) (Value.equals_congr h h'))
  | less => exact horder (· == .lt)
  | lessEqual => exact horder (· != .gt)
  | greater => exact horder (· == .gt)
  | greaterEqual => exact horder (· != .lt)

end Operators

/-! ## Evaluations -/

namespace Evaluation

variable {σ σ' α β : Type} {related : α → α → Prop} {related' : β → β → Prop}

/-- The evaluations have like outcomes and leave every state as it is. -/
def Agree (related : α → α → Prop) (m : Evaluation σ α) (m' : Evaluation σ' α) : Prop :=
  ∀ state state', ∃ x y, m.run.run state = (x, state) ∧ m'.run.run state' = (y, state') ∧
    Alike related x y

variable {m : Evaluation σ α} {m' : Evaluation σ' α}

theorem agree_lift {x y : Except EvalError α} (h : Alike related x y) :
    Agree related (liftM x : Evaluation σ α) (liftM y : Evaluation σ' α) := by
  intro state state'
  cases h with
  | ok h => exact ⟨_, _, rfl, rfl, .ok h⟩
  | error hkind hmessage => exact ⟨_, _, rfl, rfl, .error hkind hmessage⟩

theorem agree_pure {a b : α} (h : related a b) :
    Agree related (pure a : Evaluation σ α) (pure b : Evaluation σ' α) :=
  fun _ _ => ⟨_, _, rfl, rfl, .ok h⟩

theorem agree_throw (error : EvalError) :
    Agree related (throw error : Evaluation σ α) (throw error : Evaluation σ' α) :=
  fun _ _ => ⟨_, _, rfl, rfl, .error rfl rfl⟩

theorem agree_bind {f : α → Evaluation σ β} {f' : α → Evaluation σ' β} (h : Agree related m m')
    (hnext : ∀ a b, related a b → Agree related' (f a) (f' b)) :
    Agree related' (m >>= f) (m' >>= f') := by
  intro state state'
  obtain ⟨x, y, hx, hy, halike⟩ := h state state'
  rw [run_bind, run_bind, hx, hy]
  cases halike with
  | ok hrelated => exact hnext _ _ hrelated state state'
  | error hkind hmessage => exact ⟨_, _, rfl, rfl, .error hkind hmessage⟩

variable {left right : Evaluation σ Value} {left' right' : Evaluation σ' Value}

theorem agree_decimal (h : Agree Value.Same left left') :
    Agree (fun a b => a.same b = true) (decimal left) (decimal left') :=
  agree_bind h fun _ _ hsame => agree_lift (Value.alike_toDecimal hsame)

theorem agree_boolean (h : Agree Value.Same left left') :
    Agree (fun p q => p = q) (boolean left) (boolean left') :=
  agree_bind h fun _ _ hsame => agree_lift (Value.alike_toBool hsame)

theorem agree_binary (operation : BinaryOperation) (hleft : Agree Value.Same left left')
    (hright : Agree Value.Same right right') :
    Agree Value.Same (binary operation left right) (binary operation left' right') := by
  have hlast : Agree Value.Same (do return Value.boolean (← boolean right))
      (do return Value.boolean (← boolean right')) :=
    agree_bind (agree_boolean hright) fun p q heq => agree_pure (heq ▸ Value.same_refl _)
  cases operation with
  | both =>
    refine agree_bind (agree_boolean hleft) fun p q heq => ?_
    subst heq
    cases p with
    | true => exact hlast
    | false => exact agree_pure (Value.same_refl _)
  | either =>
    refine agree_bind (agree_boolean hleft) fun p q heq => ?_
    subst heq
    cases p with
    | true => exact agree_pure (Value.same_refl _)
    | false => exact hlast
  | arithmetic operation =>
    exact agree_bind (agree_decimal hleft) fun a b h =>
      agree_bind (agree_decimal hright) fun c d h' => agree_lift (operation.alike_apply h h')
  | comparison comparison =>
    refine agree_bind hleft fun v w h => agree_bind hright fun v' w' h' => ?_
    exact agree_bind (agree_lift (comparison.alike_holds h h')) fun p q heq =>
      agree_pure (heq ▸ Value.same_refl _)

end Evaluation

/-! ## Trees -/

namespace Expr

open Evaluation

variable {σ σ' : Type} {bindings bindings' : Bindings}

theorem agree_evaluate (hbindings : ∀ name, Option.Rel Value.Same (bindings name) (bindings' name))
    (resolver : Resolver σ) (resolver' : Resolver σ') {a b : Expr} (h : a.same b = true)
    (hcalls : ∀ node ∈ a.nodes, node.kind ≠ .call) :
    Agree Value.Same (a.evaluate bindings resolver) (b.evaluate bindings' resolver') := by
  induction a using induction_parts generalizing b with
  | step a ih =>
    have hpart {part other : Expr} (hmem : part ∈ a.parts) (hsame : part.same other = true) :
        Agree Value.Same (part.evaluate bindings resolver) (other.evaluate bindings' resolver') :=
      ih part hmem hsame fun node hnode => hcalls node (mem_nodes_of_part hmem hnode)
    cases a with
    | constant v =>
      cases b <;> simp only [same, Bool.false_eq_true] at h
      case constant w => exact agree_pure h
    | parameter name =>
      cases b <;> simp only [same, beq_iff_eq, Bool.false_eq_true] at h
      case parameter other =>
        subst h
        have hvalues := hbindings name
        simp only [evaluate]
        generalize bindings name = value, bindings' name = value' at hvalues
        cases hvalues with
        | some hsame => exact agree_pure hsame
        | none => exact agree_throw _
    | unary operator operand =>
      cases b <;> simp only [same, Bool.and_eq_true, beq_iff_eq, Bool.false_eq_true] at h
      case unary operator' operand' =>
        obtain ⟨rfl, hsame⟩ := h
        simp only [evaluate]
        split
        · next operation _ =>
          exact agree_bind (hpart (by simp [parts]) hsame) fun v w hvalues =>
            agree_lift (operation.alike_apply hvalues)
        · exact agree_throw _
    | binary operator left right =>
      cases b <;> simp only [same, Bool.and_eq_true, beq_iff_eq, Bool.false_eq_true] at h
      case binary operator' left' right' =>
        obtain ⟨⟨rfl, hleft⟩, hright⟩ := h
        simp only [evaluate]
        split
        · next operation _ =>
          exact agree_binary operation (hpart (by simp [parts]) hleft)
            (hpart (by simp [parts]) hright)
        · exact agree_throw _
    | conditional condition ifTrue ifFalse =>
      cases b <;> simp only [same, Bool.and_eq_true, Bool.false_eq_true] at h
      case conditional condition' ifTrue' ifFalse' =>
        obtain ⟨⟨hcondition, htrue⟩, hfalse⟩ := h
        simp only [evaluate]
        refine agree_bind (agree_boolean (hpart (by simp [parts]) hcondition)) fun p q heq => ?_
        subst heq
        cases p with
        | true => exact hpart (by simp [parts]) htrue
        | false => exact hpart (by simp [parts]) hfalse
    | call name arguments => exact absurd rfl (hcalls _ (mem_nodes_self _))
    | unsupported explanation =>
      cases b <;> simp only [same, beq_iff_eq, Bool.false_eq_true] at h
      case unsupported other =>
        subst h
        exact agree_throw _

/-- **Equal trees without calls evaluate equally.** Under bindings with equal values the two
    evaluations have equal values, or they fail with errors of one kind and one message, whatever
    the functions are; and no function is called. -/
theorem evaluate_of_same {a b : Expr} (h : a.same b = true)
    (hcalls : ∀ node ∈ a.nodes, node.kind ≠ .call)
    (hbindings : ∀ name, Option.Rel (fun v w => v.same w = true) (bindings name) (bindings' name))
    (resolver : Resolver σ) (resolver' : Resolver σ') (state : σ) (state' : σ') :
    (∃ v w, (a.evaluate bindings resolver).run.run state = (.ok v, state) ∧
      (b.evaluate bindings' resolver').run.run state' = (.ok w, state') ∧ v.same w = true) ∨
    ∃ error error', (a.evaluate bindings resolver).run.run state = (.error error, state) ∧
      (b.evaluate bindings' resolver').run.run state' = (.error error', state') ∧
      error.kind = error'.kind ∧ error.message = error'.message := by
  obtain ⟨x, y, hx, hy, halike⟩ := agree_evaluate hbindings resolver resolver' h hcalls state state'
  cases halike with
  | ok hsame => exact .inl ⟨_, _, hx, hy, hsame⟩
  | error hkind hmessage => exact .inr ⟨_, _, hx, hy, hkind, hmessage⟩

/-- The remainders `3.0 % 2.00` and `3 % 2` are no truth values, and the messages
    that say so are the same. -/
theorem evaluate_of_same_remainder :
    let number (mantissa scale : Nat) (hm : mantissa < Decimal.bound)
      (hs : scale ≤ Decimal.maxScale) :=
      Value.number ⟨false, mantissa, scale, hm, hs⟩
    let tree (v : Value) : Expr := .unary "!" (.binary "%" (.constant v) (.parameter "x"))
    let long := number 30 1 (by decide) (by decide)
    let short := number 3 0 (by decide) (by decide)
    let binding (v : Value) : Bindings := fun name => if name = "x" then some v else none
    let wide := binding (number 200 2 (by decide) (by decide))
    let narrow := binding (number 2 0 (by decide) (by decide))
    (tree long).same (tree short) = true ∧ (∀ node ∈ (tree long).nodes, node.kind ≠ .call) ∧
      (∀ name, Option.Rel (fun v w => v.same w = true) (wide name) (narrow name)) ∧
      ∃ error error' : EvalError,
        ((tree long).evaluate wide Resolver.none).run.run () = (.error error, ()) ∧
        ((tree short).evaluate narrow Resolver.none).run.run () = (.error error', ()) ∧
        error.kind = error'.kind ∧ error.message = error'.message := by
  intro number tree long short binding wide narrow
  have hsame : (tree long).same (tree short) = true := by decide
  have hcalls : ∀ node ∈ (tree long).nodes, node.kind ≠ .call := by
    rw [nodes_eq_preorder]
    decide
  have hbindings (name : String) :
      Option.Rel (fun v w => v.same w = true) (wide name) (narrow name) := by
    by_cases hname : name = "x"
    · simp only [wide, narrow, binding, hname, if_true]
      exact .some (by decide)
    · simp only [wide, narrow, binding, hname, if_false]
      exact .none
  have hfails : ((tree long).evaluate wide Resolver.none).run.run () =
      (.error (.coercion (number 100 2 (by decide) (by decide)) .boolean), ()) := rfl
  rcases evaluate_of_same hsame hcalls hbindings .none .none () () with ⟨v, w, hv, -⟩ | hboth
  · rw [hfails] at hv
    cases hv
  · exact ⟨hsame, hcalls, hbindings, hboth⟩

end Expr

end Formula
