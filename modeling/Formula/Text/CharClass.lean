set_option autoImplicit false

/-! # Classes of characters

A class of characters is given by ranges of code points in ascending order, as the Unicode
properties are. The order is part of the type, so a search may stop at the first range that starts
behind the character it looks for: `contains_iff` says that it misses nothing. -/

namespace Formula

/-- Whether the ranges ascend, start at `least` or later, and none touches the one before it. -/
def ascendsFrom (least : Nat) : List (Nat × Nat) → Bool
  | [] => true
  | (first, last) :: rest => least ≤ first && first ≤ last && ascendsFrom (last + 2) rest

/-- Whether one of the ascending ranges holds the code point. -/
def inRanges (code : Nat) : List (Nat × Nat) → Bool
  | [] => false
  | (first, last) :: rest => first ≤ code && (code ≤ last || inRanges code rest)

/-- What stands in ranges that ascend from `least` is not below `least`. -/
theorem le_of_ascendsFrom {least : Nat} {ranges : List (Nat × Nat)}
    (h : ascendsFrom least ranges = true) : ∀ r ∈ ranges, least ≤ r.1 := by
  induction ranges generalizing least with
  | nil => simp
  | cons head rest ih =>
    obtain ⟨first, last⟩ := head
    simp only [ascendsFrom, Bool.and_eq_true, decide_eq_true_eq] at h
    intro r hr
    rcases List.mem_cons.1 hr with rfl | hr
    · exact h.1.1
    · have := ih h.2 r hr
      omega

/-- The search finds a code point exactly if a range holds it. -/
theorem inRanges_iff {least : Nat} {ranges : List (Nat × Nat)} (h : ascendsFrom least ranges = true)
    (code : Nat) : inRanges code ranges = true ↔ ∃ r ∈ ranges, r.1 ≤ code ∧ code ≤ r.2 := by
  induction ranges generalizing least with
  | nil => simp [inRanges]
  | cons head rest ih =>
    obtain ⟨first, last⟩ := head
    simp only [ascendsFrom, Bool.and_eq_true, decide_eq_true_eq] at h
    have later := le_of_ascendsFrom h.2
    simp only [inRanges, Bool.and_eq_true, Bool.or_eq_true, decide_eq_true_eq, ih h.2,
      List.mem_cons, exists_eq_or_imp]
    constructor
    · rintro ⟨hfirst, hlast | hrest⟩
      · exact Or.inl ⟨hfirst, hlast⟩
      · exact Or.inr hrest
    · rintro (⟨hfirst, hlast⟩ | ⟨r, hr, hr1, hr2⟩)
      · exact ⟨hfirst, Or.inl hlast⟩
      · have := later r hr
        exact ⟨by omega, Or.inr ⟨r, hr, hr1, hr2⟩⟩

/-- A class of characters: the first and the last code point of each of its ranges. -/
structure CharClass where
  ranges : List (Nat × Nat)
  ascends : ascendsFrom 0 ranges = true

/-- Whether the character is in the class. -/
def CharClass.contains (s : CharClass) (c : Char) : Bool := inRanges c.toNat s.ranges

/-- A class holds the characters whose code point stands in one of its ranges. -/
theorem CharClass.contains_iff (s : CharClass) (c : Char) :
    s.contains c = true ↔ ∃ r ∈ s.ranges, r.1 ≤ c.toNat ∧ c.toNat ≤ r.2 :=
  inRanges_iff s.ascends c.toNat

end Formula
