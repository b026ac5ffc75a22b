import Formula.Value

set_option autoImplicit false

/-! # Expressions

The tree of a formula. Names, operators and explanations may be any text: a tree that is built by
hand need not be one that a formula can spell. What the language does not cover stands in the tree
as an `unsupported` leaf with an explanation. -/

namespace Formula

/-- An expression. -/
inductive Expr where
  | constant (value : Value)
  | parameter (name : String)
  | unary (operator : String) (operand : Expr)
  | binary (operator : String) (left right : Expr)
  | conditional (condition ifTrue ifFalse : Expr)
  | call (name : String) (arguments : List Expr)
  | unsupported (explanation : String)
  deriving Inhabited

/-- The kinds of expressions. -/
inductive Expr.Kind where
  | constant
  | parameter
  | unary
  | binary
  | conditional
  | call
  | unsupported
  deriving DecidableEq, Inhabited

namespace Expr

/-- The kind of an expression. -/
def kind : Expr → Kind
  | constant _ => .constant
  | parameter _ => .parameter
  | unary _ _ => .unary
  | binary _ _ _ => .binary
  | conditional _ _ _ => .conditional
  | call _ _ => .call
  | unsupported _ => .unsupported

/-- The direct parts of an expression in the order in which they are written. -/
def parts : Expr → List Expr
  | constant _ | parameter _ | unsupported _ => []
  | unary _ operand => [operand]
  | binary _ left right => [left, right]
  | conditional condition ifTrue ifFalse => [condition, ifTrue, ifFalse]
  | call _ arguments => arguments

/-! ## Size -/

mutual

/-- The number of nodes of a tree. -/
def size : Expr → Nat
  | constant _ | parameter _ | unsupported _ => 1
  | unary _ operand => operand.size + 1
  | binary _ left right => left.size + right.size + 1
  | conditional condition ifTrue ifFalse => condition.size + ifTrue.size + ifFalse.size + 1
  | call _ arguments => sizeAll arguments + 1

/-- The number of nodes of several trees. -/
def sizeAll : List Expr → Nat
  | [] => 0
  | e :: es => e.size + sizeAll es

end

/-- A tree has one node more than its parts. -/
theorem size_eq (e : Expr) : e.size = sizeAll e.parts + 1 := by
  cases e with
  | conditional condition ifTrue ifFalse =>
    simp only [size, sizeAll, parts]
    omega
  | _ => simp [size, sizeAll, parts]

theorem sizeAll_append (as bs : List Expr) : sizeAll (as ++ bs) = sizeAll as + sizeAll bs := by
  induction as with
  | nil => simp [sizeAll]
  | cons a as ih => simp [sizeAll, ih, Nat.add_assoc]

/-! ## Equality -/

mutual

/-- Whether two trees are the same tree, down to the digits of their numbers. -/
def isEqual : Expr → Expr → Bool
  | constant a, constant b => a == b
  | parameter a, parameter b => a == b
  | unary o a, unary p b => o == p && a.isEqual b
  | binary o a b, binary p c d => o == p && a.isEqual c && b.isEqual d
  | conditional a b c, conditional d e f => a.isEqual d && b.isEqual e && c.isEqual f
  | call f as, call g bs => f == g && areEqual as bs
  | unsupported a, unsupported b => a == b
  | _, _ => false

/-- Whether two lists of trees are the same list. -/
def areEqual : List Expr → List Expr → Bool
  | [], [] => true
  | a :: as, b :: bs => a.isEqual b && areEqual as bs
  | _, _ => false

end

mutual

theorem isEqual_iff (e e' : Expr) : e.isEqual e' = true ↔ e = e' := by
  cases e with
  | constant _ | parameter _ | unsupported _ => cases e' <;> simp [isEqual]
  | unary _ a =>
    cases e' with
    | unary _ b => simp [isEqual, isEqual_iff a b]
    | _ => simp [isEqual]
  | binary _ a b =>
    cases e' with
    | binary _ c d => simp [isEqual, isEqual_iff a c, isEqual_iff b d, and_assoc]
    | _ => simp [isEqual]
  | conditional a b c =>
    cases e' with
    | conditional d e f =>
      simp [isEqual, isEqual_iff a d, isEqual_iff b e, isEqual_iff c f, and_assoc]
    | _ => simp [isEqual]
  | call _ as =>
    cases e' with
    | call _ bs => simp [isEqual, areEqual_iff as bs]
    | _ => simp [isEqual]

theorem areEqual_iff (es es' : List Expr) : areEqual es es' = true ↔ es = es' := by
  match es, es' with
  | [], [] | [], _ :: _ | _ :: _, [] => simp [areEqual]
  | a :: as, b :: bs => simp [areEqual, isEqual_iff a b, areEqual_iff as bs]

end

instance : DecidableEq Expr := fun e e' => decidable_of_iff _ (isEqual_iff e e')

mutual

/-- Equality of trees, with numbers compared by value. -/
def same : Expr → Expr → Bool
  | constant a, constant b => a.same b
  | parameter a, parameter b => a == b
  | unary o a, unary p b => o == p && a.same b
  | binary o a b, binary p c d => o == p && a.same c && b.same d
  | conditional a b c, conditional d e f => a.same d && b.same e && c.same f
  | call f as, call g bs => f == g && sameAll as bs
  | unsupported a, unsupported b => a == b
  | _, _ => false

/-- Equality of lists of trees, part by part. -/
def sameAll : List Expr → List Expr → Bool
  | [], [] => true
  | a :: as, b :: bs => a.same b && sameAll as bs
  | _, _ => false

end

end Expr

end Formula
