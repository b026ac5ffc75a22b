import Formula.Expr.Visitor

set_option autoImplicit false

/-! # Children

`Children` goes through the direct parts of an expression one by one. Operands have places of their
own, some of which may be empty; arguments follow as a list. It is a value: stepping it answers with
the rest, and the old one can be used again. -/

namespace Formula

/-- The direct parts of an expression that are still to come: those in the places from `nextFixed`
    on, and then the arguments. -/
structure Children where
  fixed : Vector (Option Expr) 3
  nextFixed : Nat
  arguments : List Expr
  deriving Inhabited

namespace Children

/-- The parts in these places. -/
def ofFixed (parts : Vector (Option Expr) 3) : Children := ⟨parts, 0, []⟩

/-- No parts. -/
def empty : Children := ofFixed #v[none, none, none]

/-- The arguments of a call. -/
def ofArguments (arguments : List Expr) : Children := ⟨#v[none, none, none], 0, arguments⟩

/-- The children of each kind of expression. -/
def visitor : Visitor Children where
  constant _ := empty
  parameter _ := empty
  unary _ operand := ofFixed #v[some operand, none, none]
  binary _ left right := ofFixed #v[some left, some right, none]
  conditional condition ifTrue ifFalse := ofFixed #v[some condition, some ifTrue, some ifFalse]
  call _ arguments := ofArguments arguments
  unsupported _ := empty

end Children

/-- All direct parts of an expression. -/
def Expr.children (e : Expr) : Children := e.accept Children.visitor

namespace Children

/-! ## Stepping -/

/-- The first part in the places from `place` on, and the place behind it. Empty
    places are passed over. -/
def takeFixed : List (Option Expr) → Nat → Option Expr × Nat
  | [], place => (none, place)
  | none :: places, place => takeFixed places (place + 1)
  | some e :: _, place => (some e, place + 1)

/-- The places that have not been passed. -/
def fixedFrom (c : Children) : List (Option Expr) := c.fixed.toList.drop c.nextFixed

/-- The next part, if there is one, and what is to come behind it. -/
def next (c : Children) : Option Expr × Children :=
  match takeFixed c.fixedFrom c.nextFixed with
  | (some e, place) => (some e, { c with nextFixed := place })
  | (none, place) =>
    match c.arguments with
    | [] => (none, { c with nextFixed := place })
    | e :: rest => (some e, { c with nextFixed := place, arguments := rest })

/-- The next part and the parts behind it, as long as there is one. -/
def next? (c : Children) : Option (Expr × Children) := c.next.1.map fun e => (e, c.next.2)

/-- A lower and an upper bound for the number of parts still to come; both are exact. -/
def sizeHint (c : Children) : Nat × Option Nat :=
  let n := c.fixedFrom.reduceOption.length + c.arguments.length
  (n, some n)

/-- How many parts are still to come. -/
def length (c : Children) : Nat := c.sizeHint.1

/-! ## What is still to come -/

/-- The parts that are still to come. -/
def remaining (c : Children) : List Expr := c.fixedFrom.reduceOption ++ c.arguments

/-- Passing places takes the first part in them and stops behind it. -/
theorem takeFixed_eq (places : List (Option Expr)) (place : Nat) :
    ∃ k, takeFixed places place = (places.reduceOption.head?, place + k) ∧
      (places.drop k).reduceOption = places.reduceOption.tail := by
  induction places generalizing place with
  | nil => exact ⟨0, rfl, rfl⟩
  | cons first places ih =>
    cases first with
    | none =>
      obtain ⟨k, htake, hrest⟩ := ih (place + 1)
      refine ⟨k + 1, ?_, hrest⟩
      rw [takeFixed, htake, Nat.add_assoc, Nat.add_comm 1 k]
      rfl
    | some e => exact ⟨1, rfl, rfl⟩

/-- A step answers with the first part still to come, and what is to come behind
    it are the others. -/
theorem next_eq (c : Children) :
    c.next.1 = c.remaining.head? ∧ c.next.2.remaining = c.remaining.tail := by
  obtain ⟨k, htake, hrest⟩ := takeFixed_eq c.fixedFrom c.nextFixed
  have hfixed (arguments : List Expr) :
      fixedFrom ⟨c.fixed, c.nextFixed + k, arguments⟩ = c.fixedFrom.drop k := by
    rw [fixedFrom, fixedFrom, List.drop_drop]
  unfold next
  rw [htake]
  cases hparts : c.fixedFrom.reduceOption with
  | cons e parts =>
    rw [hparts] at hrest
    simp [remaining, hparts, hfixed, hrest]
  | nil =>
    rw [hparts] at hrest
    cases harguments : c.arguments with
    | nil => simp [remaining, hparts, hfixed, hrest, harguments]
    | cons e rest => simp [remaining, hparts, hfixed, hrest, harguments]

@[simp]
theorem remaining_children (e : Expr) : e.children.remaining = e.parts := by
  cases e <;> rfl

end Children

end Formula
