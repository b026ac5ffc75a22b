import Formula.Proofs.Traversal

set_option autoImplicit false

/-! # How many children are still to come

Places that are empty are passed over when a child is asked for, and are left out when the children
are counted, so the two have to agree on where the next place is. A place behind the last one would
be worse than a wrong number: there is no list of places that starts there. Stepping stops right
behind the last place at the latest, and up to there the number is that of the children that
further calls answer with. -/

namespace Formula

open Iteration

namespace Children

variable {c : Children}

/-! ## Counting where it may fail -/

/-- The places that have not been passed, cut out of all places; no cut starts behind their end. -/
def cut? (c : Children) : Option (List (Option Expr)) :=
  if c.nextFixed ≤ c.fixed.size then some (c.fixed.toList.drop c.nextFixed) else none

/-- The bounds for the number of parts still to come, if the places can be cut. -/
def sizeHint? (c : Children) : Option (Nat × Option Nat) := do
  let places ← c.cut?
  let n := places.reduceOption.length + c.arguments.length
  return (n, some n)

/-- How many parts are still to come, if there are bounds and they are the same number. -/
def length? (c : Children) : Option Nat := do
  let (lower, upper) ← c.sizeHint?
  if upper = some lower then some lower else none

theorem cut?_eq (h : c.nextFixed ≤ 3) : c.cut? = some c.fixedFrom := if_pos h

theorem sizeHint?_eq (h : c.nextFixed ≤ 3) : c.sizeHint? = some c.sizeHint := by
  rw [sizeHint?, cut?_eq h]
  rfl

theorem length?_eq (h : c.nextFixed ≤ 3) : c.length? = some c.length := by
  rw [length?, sizeHint?_eq h]
  exact if_pos rfl

/-- What is counted are the parts that are still to come. -/
theorem sizeHint_eq (c : Children) :
    c.sizeHint = (c.remaining.length, some c.remaining.length) := by
  simp [sizeHint, remaining]

/-! ## The next place -/

theorem length_fixedFrom (c : Children) : c.fixedFrom.length = 3 - c.nextFixed := by
  simp [fixedFrom]

/-- Passing places stops behind the last of them at the latest. -/
theorem takeFixed_le (places : List (Option Expr)) (place : Nat) :
    (takeFixed places place).2 ≤ place + places.length := by
  induction places generalizing place with
  | nil => exact Nat.le_refl place
  | cons first places ih =>
    cases first with
    | none =>
      have hbehind := ih (place + 1)
      rw [takeFixed, List.length_cons]
      omega
    | some e =>
      rw [takeFixed, List.length_cons]
      omega

/-- A step goes on to where the passing of places has stopped, whether a place
    or an argument answers. -/
theorem nextFixed_next (c : Children) :
    c.next.2.nextFixed = (takeFixed c.fixedFrom c.nextFixed).2 := by
  rw [next]
  split
  · next htake => rw [htake]
  · next htake =>
    rw [htake]
    split <;> rfl

/-- A step from a place that is not behind the end does not go behind the end. -/
theorem nextFixed_next_le (h : c.nextFixed ≤ 3) : c.next.2.nextFixed ≤ 3 := by
  have hstop := takeFixed_le c.fixedFrom c.nextFixed
  rw [length_fixedFrom] at hstop
  rw [nextFixed_next]
  omega

theorem nextFixed_children (e : Expr) : e.children.nextFixed = 0 := by cases e <;> rfl

/-- However often a child was asked for, the next place is not behind the end. -/
theorem nextFixed_calls_le (e : Expr) (k : Nat) :
    (calls Children.next k e.children).2.nextFixed ≤ 3 := by
  refine calls_keep (P := fun c : Children => c.nextFixed ≤ 3) (fun _ => nextFixed_next_le) k ?_
  rw [nextFixed_children]
  exact Nat.zero_le 3

end Children

/-- **Children are counted exactly.** The first `k` calls answer with the first `k` parts of the
    tree, in the order in which these are written, and with nothing once there are no more. The next
    place is then not behind the end, so the places can be cut and the parts counted. The length and
    both bounds are the number of the parts that have not been returned: of any `m` further calls
    this many answer with a part, or all `m` of them if they are fewer. After a call without an
    answer no other call has one. -/
theorem children_are_counted (e : Expr) (k : Nat) :
    let behind := (calls Children.next k e.children).2
    let n := e.parts.length - k
    (calls Children.next k e.children).1 = answers k e.parts ∧
      behind.nextFixed ≤ 3 ∧ behind.cut? = some behind.fixedFrom ∧
      behind.sizeHint? = some behind.sizeHint ∧ behind.sizeHint = (n, some n) ∧
      behind.length? = some behind.length ∧ behind.length = n ∧
      (∀ m, (calls Children.next m behind).1 = answers m (e.parts.drop k)) ∧
      (∀ m, (calls Children.next m behind).1.reduceOption.length = min m n) ∧
      (behind.next.1 = none → ∀ m, (calls Children.next m behind).1 = List.replicate m none) := by
  intro behind n
  obtain ⟨hanswers, hbehind⟩ := Children.takesFirst.calls_eq k e.children
  rw [Children.remaining_children] at hanswers hbehind
  have hplace : behind.nextFixed ≤ 3 := Children.nextFixed_calls_le e k
  have hleft : behind.remaining.length = n := by rw [hbehind, List.length_drop]
  have hbounds : behind.sizeHint = (n, some n) := by rw [Children.sizeHint_eq, hleft]
  refine ⟨hanswers, hplace, Children.cut?_eq hplace, Children.sizeHint?_eq hplace, hbounds,
    Children.length?_eq hplace, ?_, fun m => ?_, fun m => ?_, Children.takesFirst.calls_of_none⟩
  · rw [Children.length, hbounds]
  · rw [← hbehind]
    exact (Children.takesFirst.calls_eq m behind).1
  · rw [← hleft]
    exact Children.takesFirst.length_reduceOption_calls m behind

/-- Both operands of a sum have been returned. One place has not been passed, and it is empty. -/
theorem children_are_counted_of_sum :
    let sum : Expr := .binary "+" (.parameter "a") (.parameter "b")
    let behind := (calls Children.next 2 sum.children).2
    behind.nextFixed = 2 ∧ behind.length? = some 0 ∧ behind.next.1 = none ∧
      ∀ m, (calls Children.next m behind).1 = List.replicate m none := by
  intro sum behind
  obtain ⟨-, -, -, -, -, hlength, hleft, -, -, hend⟩ := children_are_counted sum 2
  rw [hleft] at hlength
  exact ⟨rfl, hlength, rfl, hend rfl⟩

end Formula
