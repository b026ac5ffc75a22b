import Formula.Proofs.Conduct

set_option autoImplicit false

/-! # Comparing values

Equality and order are decided by two functions: equality answers for all values, order only
for two strings and for values that both stand for numbers. Where order answers, the two
agree, and exchanging the values exchanges less and greater. So the six comparison operators
never contradict each other. -/

namespace Formula

namespace Decimal

variable (a b : Decimal)

theorem cmp_swap : (a.cmp b).swap = b.cmp a := by
  rw [cmp, cmp, Nat.max_comm b.scale]
  exact Std.OrientedOrd.eq_swap.symm

theorem same_comm : a.same b = b.same a := by
  rw [same, same, ← b.cmp_swap a]
  cases b.cmp a <;> rfl

end Decimal

namespace Value

variable {x y : Value}

/-! ## Equality -/

/-- Equality of values of one kind is that of values as such. -/
theorem equals_of_kind_eq (h : x.kind = y.kind) : x.equals y = x.same y := by
  cases x <;> cases y <;> first | rfl | cases h

/-- Values of different kinds are equal if both stand for numbers, and these are equal. -/
theorem equals_of_kind_ne (h : x.kind ≠ y.kind) :
    x.equals y = match x.toDecimal, y.toDecimal with
      | .ok m, .ok n => m.same n
      | _, _ => false := by
  cases x <;> cases y <;> first | rfl | exact absurd rfl h

theorem same_comm (x y : Value) : x.same y = y.same x := by
  cases x <;> cases y <;> first | rfl | exact Decimal.same_comm .. | exact BEq.comm

theorem equals_comm (x y : Value) : x.equals y = y.equals x := by
  by_cases h : x.kind = y.kind
  · rw [equals_of_kind_eq h, equals_of_kind_eq h.symm, same_comm]
  · rw [equals_of_kind_ne h, equals_of_kind_ne (Ne.symm h)]
    cases x.toDecimal <;> cases y.toDecimal <;> first | rfl | exact Decimal.same_comm ..

/-! ## Order -/

/-- Values that are not both strings are ordered as numbers. -/
theorem order_eq (h : x.kind ≠ .string ∨ y.kind ≠ .string) :
    x.order y = do
      let m ← x.toDecimal
      let n ← y.toDecimal
      return m.cmp n := by
  cases x <;> cases y <;> first | rfl | simp [kind] at h

/-- Values that are not both strings and stand for numbers are equal if the numbers are. -/
theorem equals_of_toDecimal (h : x.kind ≠ .string ∨ y.kind ≠ .string) {m n : Decimal}
    (hm : x.toDecimal = .ok m) (hn : y.toDecimal = .ok n) : x.equals y = m.same n := by
  by_cases hkind : x.kind = y.kind
  · rw [equals_of_kind_eq hkind]
    match x, y with
    | number a, number b =>
      cases hm
      cases hn
      rfl
    | boolean p, boolean q =>
      cases p <;> cases q <;> cases hm <;> cases hn <;> decide
    | string s, string t => simp [kind] at h
  · rw [equals_of_kind_ne hkind, hm, hn]

/-- Two values that are ordered are two strings, or both stand for numbers. -/
theorem order_cases {o : Ordering} (h : x.order y = .ok o) :
    (∃ s t, x = .string s ∧ y = .string t ∧ o = compareOfLessAndEq s t) ∨
      (x.kind ≠ .string ∨ y.kind ≠ .string) ∧
        ∃ m n, x.toDecimal = .ok m ∧ y.toDecimal = .ok n ∧ o = m.cmp n := by
  by_cases hstrings : x.kind ≠ .string ∨ y.kind ≠ .string
  · rw [order_eq hstrings] at h
    cases hm : x.toDecimal with
    | error error =>
      rw [hm] at h
      cases h
    | ok m =>
      cases hn : y.toDecimal with
      | error error =>
        rw [hm, hn] at h
        cases h
      | ok n =>
        rw [hm, hn] at h
        exact .inr ⟨hstrings, m, n, rfl, rfl, (Except.ok.inj h).symm⟩
  · match x, y with
    | string s, string t => exact .inl ⟨s, t, rfl, rfl, (Except.ok.inj h).symm⟩
    | number _, _ => simp [kind] at hstrings
    | boolean _, _ => simp [kind] at hstrings
    | string _, number _ => simp [kind] at hstrings
    | string _, boolean _ => simp [kind] at hstrings

/-- Of two values that are ordered, none comes before the other exactly if they are equal. -/
theorem equals_eq_of_order {o : Ordering} (h : x.order y = .ok o) : x.equals y = (o == .eq) := by
  rcases order_cases h with ⟨s, t, rfl, rfl, rfl⟩ | ⟨hstrings, m, n, hm, hn, rfl⟩
  · have heq : compareOfLessAndEq s t = .eq ↔ s = t :=
      Std.LawfulEqOrd.compare_eq_iff_eq (α := String)
    rw [Bool.eq_iff_iff, beq_iff_eq, heq]
    exact beq_iff_eq
  · exact equals_of_toDecimal hstrings hm hn

/-- Exchanging two values that are ordered reverses their order. -/
theorem order_swap {o : Ordering} (h : x.order y = .ok o) : y.order x = .ok o.swap := by
  rcases order_cases h with ⟨s, t, rfl, rfl, rfl⟩ | ⟨hstrings, m, n, hm, hn, rfl⟩
  · exact congrArg Except.ok (Std.OrientedOrd.eq_swap (α := String))
  · rw [order_eq hstrings.symm, hm, hn, m.cmp_swap n]
    rfl

end Value

/-! ## Comparison operators -/

namespace Comparison

variable {x y : Value}

/-- The comparisons by order fail if the values are not ordered, all in the same way. -/
theorem holds_of_order_error {error : EvalError} (h : x.order y = .error error)
    {comparison : Comparison}
    (horder : comparison ∈ [less, lessEqual, greater, greaterEqual]) :
    comparison.holds x y = .error error := by
  cases comparison with
  | equal => simp at horder
  | notEqual => simp at horder
  | _ => rw [holds, h]; rfl

/-- They all have an answer if the values are ordered. -/
theorem holds_of_order {o : Ordering} (h : x.order y = .ok o) :
    less.holds x y = .ok (o == .lt) ∧ greater.holds x y = .ok (o == .gt) ∧
      lessEqual.holds x y = .ok (!(o == .gt)) ∧ greaterEqual.holds x y = .ok (!(o == .lt)) := by
  simp only [holds, h]
  exact ⟨rfl, rfl, rfl, rfl⟩

end Comparison

/-! ## Comparing operands -/

namespace Evaluation

variable {σ : Type}

/-- The values of two operands, the left one first. -/
def pair (left right : Evaluation σ Value) : Evaluation σ (Value × Value) := do
  let x ← left
  let y ← right
  return (x, y)

/-- A comparison compares the values of its operands. -/
theorem run_comparison (comparison : Comparison) (left right : Evaluation σ Value) (state : σ) :
    (binary (.comparison comparison) left right).run.run state =
      match (pair left right).run.run state with
      | (.ok (x, y), after) => ((comparison.holds x y).map .boolean, after)
      | (.error error, after) => (.error error, after) := by
  simp only [binary, pair, run_bind]
  rcases left.run.run state with ⟨error | x, middle⟩
  · rfl
  · dsimp only
    rcases right.run.run middle with ⟨error | y, after⟩
    · rfl
    · show _ = ((comparison.holds x y).map Value.boolean, after)
      dsimp only
      cases comparison.holds x y <;> rfl

end Evaluation

namespace Expr

open Evaluation

variable {σ : Type}

/-- **The comparison operators do not contradict each other.** They all fail as their operands do.
    On values, equality always has an answer, and the four orders have one all together or fail all
    with the same conversion. -/
theorem comparisons_consistent (a b : Expr) (bindings : Bindings)
    (resolver : Resolver σ) (state : σ) :
    let operands :=
      (pair (a.evaluate bindings resolver) (b.evaluate bindings resolver)).run.run state
    let compared (operator : String) :=
      ((binary operator a b).evaluate bindings resolver).run.run state
    (∀ error after, operands = (.error error, after) →
      ∀ operator ∈ ["==", "!=", "<", "<=", ">", ">="], compared operator = (.error error, after)) ∧
    ∀ x y after, operands = (.ok (x, y), after) →
      ∃ same : Bool, compared "==" = (.ok (.boolean same), after) ∧
        compared "!=" = (.ok (.boolean (!same)), after) ∧
        Comparison.equal.holds y x = .ok same ∧ (x.kind = y.kind → x.same y = same) ∧
        ((∃ error : EvalError, error.IsCoercion ∧
            ∀ operator ∈ ["<", "<=", ">", ">="], compared operator = (.error error, after)) ∨
          ∃ less greater : Bool, compared "<" = (.ok (.boolean less), after) ∧
            compared ">" = (.ok (.boolean greater), after) ∧
            compared "<=" = (.ok (.boolean (!greater)), after) ∧
            compared ">=" = (.ok (.boolean (!less)), after) ∧
            [less, same, greater].count true = 1 ∧
            Comparison.greater.holds y x = .ok less ∧ Comparison.less.holds y x = .ok greater) := by
  intro operands compared
  have hcompared {operator : String} {comparison : Comparison}
      (h : BinaryOperation.ofText? operator = some (.comparison comparison)) :
      compared operator = match operands with
        | (.ok (x, y), after) => ((comparison.holds x y).map .boolean, after)
        | (.error error, after) => (.error error, after) := by
    rw [← run_comparison]
    simp only [compared, evaluate, h]
  refine ⟨fun error after hoperands operator hoperator => ?_, fun x y after hoperands => ?_⟩
  · obtain ⟨comparison, h⟩ : ∃ comparison,
        BinaryOperation.ofText? operator = some (.comparison comparison) := by
      simp only [List.mem_cons, List.not_mem_nil, or_false] at hoperator
      rcases hoperator with rfl | rfl | rfl | rfl | rfl | rfl <;> exact ⟨_, rfl⟩
    rw [hcompared h, hoperands]
  · have hvalue {operator : String} {comparison : Comparison} {answer : Except EvalError Bool}
        (h : BinaryOperation.ofText? operator = some (.comparison comparison))
        (hanswer : comparison.holds x y = answer) :
        compared operator = (answer.map .boolean, after) := by
      rw [hcompared h, hoperands, ← hanswer]
    have hequal : Comparison.equal.holds x y = .ok (x.equals y) := rfl
    have hnotEqual : Comparison.notEqual.holds x y = .ok (!x.equals y) := rfl
    refine ⟨x.equals y, hvalue rfl hequal, hvalue rfl hnotEqual,
      congrArg Except.ok (y.equals_comm x), fun h => (Value.equals_of_kind_eq h).symm, ?_⟩
    cases horder : x.order y with
    | error error =>
      refine .inl ⟨error, isCoercion_of_order horder, fun operator hoperator => ?_⟩
      obtain ⟨comparison, hmem, h⟩ : ∃ comparison ∈
          [Comparison.less, .lessEqual, .greater, .greaterEqual],
          BinaryOperation.ofText? operator = some (.comparison comparison) := by
        simp only [List.mem_cons, List.not_mem_nil, or_false] at hoperator
        rcases hoperator with rfl | rfl | rfl | rfl <;> exact ⟨_, by decide, rfl⟩
      exact hvalue h (Comparison.holds_of_order_error horder hmem)
    | ok o =>
      obtain ⟨hless, hgreater, hlessEqual, hgreaterEqual⟩ := Comparison.holds_of_order horder
      obtain ⟨hless', hgreater', -⟩ := Comparison.holds_of_order (Value.order_swap horder)
      refine .inr ⟨o == .lt, o == .gt, hvalue rfl hless, hvalue rfl hgreater, hvalue rfl hlessEqual,
        hvalue rfl hgreaterEqual, ?_, ?_, ?_⟩
      · rw [Value.equals_eq_of_order horder]
        cases o <;> rfl
      · rw [hgreater']
        cases o <;> rfl
      · rw [hless']
        cases o <;> rfl

/-- Operands that fail on the right, and a string compared with a number of another scale. -/
theorem comparisons_consistent_of_string :
    let answering : Resolver Nat := fun _ _ count => (.ok (.string " 2.50"), count + 1)
    let answer : Expr := .call "f" []
    let number : Value := .number ⟨false, 25, 1, by decide, by decide⟩
    let compared (operator : String) (right : Expr) :=
      ((binary operator answer right).evaluate .none answering).run.run 0
    (pair (answer.evaluate .none answering)
      ((parameter "x").evaluate .none answering)).run.run 0 = (.error (.unboundParameter "x"), 1) ∧
    (∀ operator ∈ ["==", "!=", "<", "<=", ">", ">="],
      compared operator (.parameter "x") = (.error (.unboundParameter "x"), 1)) ∧
    (pair (answer.evaluate .none answering)
      ((constant number).evaluate .none answering)).run.run 0 = (.ok (.string " 2.50", number), 1) ∧
    ∃ same : Bool, compared "==" (.constant number) = (.ok (.boolean same), 1) ∧
      compared "!=" (.constant number) = (.ok (.boolean (!same)), 1) ∧
      Comparison.equal.holds number (.string " 2.50") = .ok same := by
  intro answering answer number compared
  have hfails : (pair (answer.evaluate .none answering)
      ((parameter "x").evaluate .none answering)).run.run 0 =
        (.error (.unboundParameter "x"), 1) := rfl
  have hvalues : (pair (answer.evaluate .none answering)
      ((constant number).evaluate .none answering)).run.run 0 =
        (.ok (.string " 2.50", number), 1) := rfl
  obtain ⟨hfailure, -⟩ := comparisons_consistent answer (.parameter "x") .none answering 0
  obtain ⟨-, hanswer⟩ := comparisons_consistent answer (.constant number) .none answering 0
  obtain ⟨same, hequal, hnot, hcomm, -⟩ := hanswer _ _ _ hvalues
  exact ⟨hfails, hfailure _ _ hfails, hvalues, same, hequal, hnot, hcomm⟩

end Expr

end Formula
