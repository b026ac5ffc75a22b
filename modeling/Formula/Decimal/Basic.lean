set_option autoImplicit false

/-! # Decimal numbers

A decimal is a sign, a mantissa of at most 96 bits and a scale of at most 28: its value is the
mantissa divided by ten to the scale. The same value can be held at several scales (`1.5` and
`1.50`), and zero can carry a sign; both are kept, because they show when the number is written.

Equality of the stored parts is `=`. Equality of values, which ignores the scale and the sign of
zero, is `Decimal.same`, and `Decimal.cmp` orders by value. -/

namespace Formula

/-- Ten to the `k`. -/
def tenPow (k : Nat) : Nat := Nat.pow 10 k

/-- Two to the 96: every mantissa is below it. -/
abbrev Decimal.bound : Nat := 79228162514264337593543950336

/-- The largest number of fraction digits. -/
abbrev Decimal.maxScale : Nat := 28

/-- The number `±mantissa / 10 ^ scale`. -/
structure Decimal where
  negative : Bool
  mantissa : Nat
  scale : Nat
  mantissa_lt : mantissa < Decimal.bound
  scale_le : scale ≤ Decimal.maxScale
  deriving DecidableEq

namespace Decimal

/-! ## Building -/

/-- The decimal with these parts, if they are in range. -/
def ofParts? (negative : Bool) (mantissa scale : Nat) : Option Decimal :=
  if h : mantissa < bound ∧ scale ≤ maxScale then
    some ⟨negative, mantissa, scale, h.1, h.2⟩
  else
    none

/-- Like `ofParts?`, but zero never carries a sign. -/
def ofResult? (negative : Bool) (mantissa scale : Nat) : Option Decimal :=
  ofParts? (negative && mantissa != 0) mantissa scale

/-- Zero without sign or fraction digits. -/
def zero : Decimal := ⟨false, 0, 0, by decide, by decide⟩

/-- One without fraction digits. -/
def one : Decimal := ⟨false, 1, 0, by decide, by decide⟩

instance : Inhabited Decimal := ⟨zero⟩

/-- A number of at most 64 bits, without fraction digits. -/
def ofWord (n : Nat) (h : n < 18446744073709551616) : Decimal :=
  ⟨false, n, 0, Nat.lt_trans h (by decide), Nat.zero_le _⟩

/-- The integer `n` without fraction digits, if its magnitude is in range. -/
def ofInt? (n : Int) : Option Decimal := ofParts? (decide (n < 0)) n.natAbs 0

/-- The opposite number; the sign of zero flips too. -/
def neg (d : Decimal) : Decimal := { d with negative := !d.negative }

/-! ## Value -/

/-- Whether the value is zero, at any scale and with any sign. -/
def isZero (d : Decimal) : Bool := d.mantissa == 0

/-- The mantissa with the sign. -/
def signed (d : Decimal) : Int := if d.negative then -(d.mantissa : Int) else d.mantissa

/-- The value times ten to the `scale`, exact when `scale` is at least the decimal's own. -/
def signedAt (d : Decimal) (scale : Nat) : Int := d.signed * tenPow (scale - d.scale)

/-- Order of the values. -/
def cmp (a b : Decimal) : Ordering :=
  let scale := max a.scale b.scale
  compare (a.signedAt scale) (b.signedAt scale)

/-- Whether two decimals have the same value. -/
def same (a b : Decimal) : Bool := a.cmp b == .eq

/-! ## Normal form -/

/-- Drops trailing zeros of `mantissa` as long as there is a fraction digit to drop. -/
def stripZeros (mantissa : Nat) : Nat → Nat × Nat
  | 0 => (mantissa, 0)
  | scale + 1 =>
    if mantissa % 10 = 0 then stripZeros (mantissa / 10) scale else (mantissa, scale + 1)

theorem stripZeros_le (mantissa scale : Nat) :
    (stripZeros mantissa scale).1 ≤ mantissa ∧ (stripZeros mantissa scale).2 ≤ scale := by
  induction scale generalizing mantissa with
  | zero => simp [stripZeros]
  | succ scale ih =>
    rw [stripZeros]
    split
    · have := ih (mantissa / 10)
      omega
    · simp

/-- The same value with the fewest fraction digits; zero loses its sign. -/
def normalize (d : Decimal) : Decimal where
  negative := d.negative && !d.isZero
  mantissa := (stripZeros d.mantissa d.scale).1
  scale := (stripZeros d.mantissa d.scale).2
  mantissa_lt := Nat.lt_of_le_of_lt (stripZeros_le _ _).1 d.mantissa_lt
  scale_le := Nat.le_trans (stripZeros_le _ _).2 d.scale_le

end Decimal

end Formula
