import Formula.Decimal.Basic

set_option autoImplicit false

/-! # Decimal arithmetic

Sums and products are computed exactly and then brought into range by `fit`: as few
digits as possible are dropped, and the last one kept is rounded half to even. A quotient
gains digits in groups of up to nine until it is exact or the range is full. Every
operation answers `none` on overflow.

The scale of a result is part of the answer (`1.50 + 1` is `2.50`, `1 / 2` is `0.50`), so the
definitions fix it too. -/

namespace Formula.Decimal

/-! ## Bringing a result into range -/

/-- The quotient `q` with remainder `r`, rounded to nearest against `divisor`, half to even. -/
def roundEven (q r divisor : Nat) : Nat :=
  if divisor < 2 * r ∨ (2 * r = divisor ∧ q % 2 = 1) then q + 1 else q

/-- Drops at least `k` digits of `m`, and more while the rounded quotient is out of range; each
    further digit costs one of the `scale` fraction digits that are left. A quotient that rounds up
    to the bound is cut once more from its unrounded digits. -/
def shrink (m k scale : Nat) : Option (Nat × Nat) :=
  let q := m / tenPow k
  let rounded := roundEven q (m % tenPow k) (tenPow k)
  if rounded < bound then some (rounded, scale)
  else
    match scale with
    | 0 => none
    | scale + 1 => if bound ≤ q then shrink m (k + 1) scale else shrink q 1 scale

/-- The mantissa and scale nearest to `m / 10 ^ s` that are in range. -/
def fit (m s : Nat) : Option (Nat × Nat) :=
  shrink m (s - maxScale) (min s maxScale)

/-! ## Sum, difference, product -/

/-- The exact sum, then `fit`; a zero operand leaves the other one as it is. -/
def add? (a b : Decimal) : Option Decimal :=
  if a.isZero then some b
  else if b.isZero then some a
  else
    let scale := max a.scale b.scale
    let sum := a.signedAt scale + b.signedAt scale
    (fit sum.natAbs scale).bind fun (m, s) => ofResult? (decide (sum < 0)) m s

/-- The exact difference, then `fit`; a zero on the right leaves the left operand as it is, a zero
    on the left gives the opposite of the right one, or that zero itself. -/
def sub? (a b : Decimal) : Option Decimal :=
  if b.isZero then
    if a.isZero then some b else some a
  else
    a.add? b.neg

/-- Mantissas below this one are multiplied as single words. -/
abbrev narrowBound : Nat := 4294967296

/-- The exact product, then `fit`. A product of two narrow mantissas at a scale above 47 is zero
    outright, and only a wide product that rounds to zero keeps its sign. -/
def mul? (a b : Decimal) : Option Decimal :=
  let negative := a.negative != b.negative
  let scale := a.scale + b.scale
  if a.isZero || b.isZero then some zero
  else if a.mantissa < narrowBound ∧ b.mantissa < narrowBound then
    if 47 < scale then some zero
    else (fit (a.mantissa * b.mantissa) scale).bind fun (m, s) => ofResult? negative m s
  else
    (fit (a.mantissa * b.mantissa) scale).bind fun (m, s) => ofParts? negative m s

/-! ## Quotient

The scale of an unfinished quotient can be negative, down to minus 28. It is counted as `room`, the
number of fraction digits still to be had: the scale is `28 - room`. -/

/-- The most digits, at most the given number, that can be appended to `q` with
    the result in range. -/
def headroom (q : Nat) : Nat → Nat
  | 0 => 0
  | p + 1 => if q * tenPow (p + 1) < bound then p + 1 else headroom q p

theorem headroom_le (q p : Nat) : headroom q p ≤ p := by
  induction p with
  | zero => simp [headroom]
  | succ p ih =>
    rw [headroom]
    split <;> omega

/-- Drops the last digit of a quotient that has grown out of range, half to even; `inexact` says
    that digits have been lost below it. -/
def dropDigit (q room : Nat) (inexact : Bool) : Option (Nat × Nat) :=
  if maxScale ≤ room then none
  else
    let last := q % 10
    let q := q / 10
    let up := 5 < last ∨ (last = 5 ∧ (inexact = true ∨ q % 2 = 1))
    some (if up then q + 1 else q, maxScale - (room + 1))

/-- How many digits the quotient `q` with remainder `r` gains in the next group; `none` means that
    it cannot gain as many as its scale needs. -/
def nextGroup (room q r : Nat) : Option Nat :=
  if r = 0 then
    some (min 9 (room - maxScale))
  else
    let p := headroom q (min 9 room)
    if p < 9 ∧ p + maxScale < room then none else some p

theorem nextGroup_le {room q r p : Nat} (h : nextGroup room q r = some p) : p ≤ room := by
  have := headroom_le q (min 9 room)
  grind [nextGroup]

/-- Extends the quotient `q` with remainder `r` group by group until it is exact at a scale of at
    least zero, or no further digit fits and the last one is rounded. -/
def divide (divisor room q r : Nat) : Option (Nat × Nat) :=
  match _h : nextGroup room q r with
  | none => none
  | some 0 =>
    let rounded := roundEven q r divisor
    if rounded = bound then dropDigit rounded room true else some (rounded, maxScale - room)
  | some (p + 1) =>
    let widened := q * tenPow (p + 1)
    let digits := r * tenPow (p + 1) / divisor
    let rest := r * tenPow (p + 1) % divisor
    if bound ≤ widened then none
    else if bound ≤ widened + digits then dropDigit (widened + digits) (room - (p + 1)) (rest != 0)
    else divide divisor (room - (p + 1)) (widened + digits) rest
  termination_by room
  decreasing_by
    have := nextGroup_le _h
    omega

/-- Drops `k` trailing zeros if they are all there and the scale has them. -/
def dropZeros (k : Nat) (parts : Nat × Nat) : Nat × Nat :=
  if k ≤ parts.2 ∧ parts.1 % tenPow k = 0 then (parts.1 / tenPow k, parts.2 - k) else parts

/-- Drops trailing zeros eight at a time while the low word of the mantissa is zero. -/
def dropEights (m : Nat) : Nat → Nat × Nat
  | s + 8 =>
    if m % narrowBound = 0 ∧ m % tenPow 8 = 0 then dropEights (m / tenPow 8) s else (m, s + 8)
  | s => (m, s)

/-- Takes out most trailing zeros of a quotient that had a remainder; some can stay. -/
def tidy (parts : Nat × Nat) : Nat × Nat :=
  dropZeros 1 (dropZeros 2 (dropZeros 4 (dropEights parts.1 parts.2)))

/-- The quotient, rounded half to even when it is not exact; `none` also for a zero divisor. -/
def div? (a b : Decimal) : Option Decimal :=
  if b.isZero then none
  else if a.isZero then some zero
  else
    let r := a.mantissa % b.mantissa
    let room := maxScale + b.scale - a.scale
    (divide b.mantissa room (a.mantissa / b.mantissa) r).bind fun parts =>
      let (m, s) := if r = 0 then parts else tidy parts
      ofResult? (a.negative != b.negative) m s

/-! ## Remainder -/

/-- The remainder of the division that rounds toward zero, with the sign of `a`; `none` for a zero
    divisor. A dividend smaller than the divisor is answered as it is. -/
def rem? (a b : Decimal) : Option Decimal :=
  if b.isZero then none
  else if a.isZero then some zero
  else
    let scale := max a.scale b.scale
    let x := a.mantissa * tenPow (scale - a.scale)
    let y := b.mantissa * tenPow (scale - b.scale)
    if x = y then some zero
    else if x < y then some a
    else ofResult? a.negative (x % y) scale

end Formula.Decimal
