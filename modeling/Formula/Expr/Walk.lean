import Formula.Expr.Children

set_option autoImplicit false

/-! # Walking a tree

A `Walk` goes through all nodes of a tree, a node before its children and children in
order. It keeps a stack of the `Children` that are still to come at each level, so no call
is open between two steps. -/

namespace Formula

/-- The tree itself, until the first step, and then the nodes still to come, the
    innermost level first. -/
structure Walk where
  root : Option Expr
  levels : List Children
  deriving Inhabited

namespace Walk

/-- The walk from `root` on. -/
def start (root : Expr) : Walk := ⟨some root, []⟩

/-- The next node on these levels and the levels behind it: levels that have run out are left, and
    the node's children become the innermost level. -/
def advance : List Children → Option Expr × List Children
  | [] => (none, [])
  | level :: outer =>
    match level.next with
    | (none, _) => advance outer
    | (some e, siblings) => (some e, e.children :: siblings :: outer)

/-- The next node, if there is one, and the walk behind it. -/
def next (w : Walk) : Option Expr × Walk :=
  match w.root with
  | some root => (some root, ⟨none, root.children :: w.levels⟩)
  | none =>
    let (node, levels) := advance w.levels
    (node, ⟨none, levels⟩)

/-- The next node and the walk behind it, as long as there is one. -/
def next? (w : Walk) : Option (Expr × Walk) := w.next.1.map fun e => (e, w.next.2)

/-! ## The rest of a walk -/

/-- The trees that are still to come. -/
def remaining (w : Walk) : List Expr := w.root.toList ++ w.levels.flatMap Children.remaining

/-- A step on the levels takes the first tree and puts its parts in its place. -/
theorem advance_cases (levels : List Children) :
    (advance levels = (none, []) ∧ levels.flatMap Children.remaining = []) ∨
      ∃ e others behind, advance levels = (some e, behind) ∧
        levels.flatMap Children.remaining = e :: others ∧
        behind.flatMap Children.remaining = e.parts ++ others := by
  induction levels with
  | nil => exact .inl ⟨rfl, rfl⟩
  | cons level outer ih =>
    obtain ⟨hfirst, hrest⟩ := level.next_eq
    rw [advance]
    split
    · next hnext =>
      -- the level has run out
      have hempty : level.remaining = [] := by
        rw [hnext] at hfirst
        exact List.head?_eq_none_iff.1 hfirst.symm
      rw [List.flatMap_cons, hempty, List.nil_append]
      exact ih
    · next e siblings hnext =>
      rw [hnext] at hfirst hrest
      obtain ⟨others, hlevel⟩ := List.head?_eq_some_iff.1 hfirst.symm
      rw [hlevel] at hrest
      exact .inr ⟨e, others ++ outer.flatMap Children.remaining, _, rfl,
        by rw [List.flatMap_cons, hlevel, List.cons_append],
        by simp [show siblings.remaining = others from hrest]⟩

/-- A step takes the first tree and puts its parts in its place, until none is left. -/
theorem next_cases (w : Walk) :
    (w.next = (none, ⟨none, []⟩) ∧ w.remaining = []) ∨
      ∃ e others behind, w.next = (some e, behind) ∧ w.remaining = e :: others ∧
        behind.remaining = e.parts ++ others := by
  obtain ⟨root, levels⟩ := w
  cases root with
  | some root =>
    refine .inr ⟨root, levels.flatMap Children.remaining, _, rfl, rfl, ?_⟩
    simp [remaining]
  | none =>
    rcases advance_cases levels with ⟨hnext, hnone⟩ | ⟨e, others, behind, hnext, hfirst, hrest⟩
    · exact .inl ⟨by simp [next, hnext], by simpa [remaining] using hnone⟩
    · exact .inr ⟨e, others, ⟨none, behind⟩, by simp [next, hnext],
        by simpa [remaining] using hfirst, by simpa [remaining] using hrest⟩

/-- The number of nodes still to come. -/
def size (w : Walk) : Nat := Expr.sizeAll w.remaining

/-- A step takes one node. -/
theorem size_of_next? {w rest : Walk} {e : Expr} (h : w.next? = some (e, rest)) :
    w.size = rest.size + 1 := by
  rcases w.next_cases with ⟨hnext, -⟩ | ⟨first, others, behind, hnext, hnow, hthen⟩
  · simp [next?, hnext] at h
  · simp only [next?, hnext, Option.map_some, Option.some.injEq, Prod.mk.injEq] at h
    obtain ⟨rfl, rfl⟩ := h
    rw [size, size, hnow, hthen, Expr.sizeAll, Expr.size_eq, Expr.sizeAll_append]
    omega

/-- The nodes still to come. -/
def toList (w : Walk) : List Expr :=
  match _h : w.next? with
  | none => []
  | some (e, rest) => e :: rest.toList
  termination_by w.size
  decreasing_by
    have := size_of_next? _h
    omega

end Walk

/-- All nodes of a tree, a node before its children and children in order. -/
def Expr.nodes (e : Expr) : List Expr := (Walk.start e).toList

end Formula
