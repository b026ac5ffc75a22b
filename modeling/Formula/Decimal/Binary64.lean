import Formula.Decimal.Basic

set_option autoImplicit false

/-! # Decimals and binary64

`Decimal.toBinary64` goes through double arithmetic and can lose digits; its steps are fixed,
because each of them rounds. `Decimal.ofBinary64?` starts from the bits of the double, keeps the
value exact as long as 96 bits can, and then shortens the decimal to about sixteen digits. -/

namespace Formula.Decimal

/-! ## To binary64 -/

/-- Ten to the `n` by repeated squaring in doubles, starting from the partial product `acc`. -/
def floatTenPow (n : Nat) (base acc : Float) : Float :=
  let acc := if n % 2 = 1 then acc * base else acc
  if n / 2 = 0 then acc else floatTenPow (n / 2) (base * base) acc
  termination_by n
  decreasing_by omega

/-- The nearest double for an integer; otherwise the sum of the whole part and the
    fraction, rounded to as many decimal places as the scale has. Only a zero without
    fraction digits loses its sign. -/
def toBinary64 (d : Decimal) : Float :=
  let withSign (x : Float) : Float := if d.negative then -x else x
  if d.scale = 0 then
    if d.isZero then 0 else withSign (Float.ofNat d.mantissa)
  else
    let power := tenPow d.scale
    let whole := Float.ofNat (d.mantissa / power)
    let fraction := Float.ofNat (d.mantissa % power) / Float.ofNat power
    if fraction == 0 then withSign whole
    else
      let places := floatTenPow d.scale 10 1
      withSign (((whole + fraction) * places).round / places)

/-! ## From binary64

The double is `m * 2 ^ e`. Writing `2 ^ e` as `5 ^ (-e) * 10 ^ e` leaves powers of five and of ten
to be worked into `m`, which stays below the bound. -/

/-- Works `5 ^ fives` into `m * 10 ^ tens`; a factor two that `m` has, or has to give up for lack of
    room, makes a ten of a five. -/
def takeFives (m : Nat) (tens : Int) : Nat → Nat × Int
  | 0 => (m, tens)
  | fives + 1 =>
    if m % 2 = 0 then takeFives (m / 2) (tens + 1) fives
    else if m * 5 < bound then takeFives (m * 5) tens fives
    else takeFives (m / 2) (tens + 1) fives

/-- Divides `m * 10 ^ tens` by `5 ^ fives`: by doubling `m` and lowering the power of ten as long as
    there is room, then by dividing `m`. `none` if the result cannot be in range. -/
def dropFives (m : Nat) (tens : Int) : Nat → Option (Nat × Int)
  | 0 => some (m, tens)
  | fives + 1 =>
    if 2 * m < bound then dropFives (2 * m) (tens - 1) fives
    else if 2 * tens > fives + 1 then none
    else dropFives (m / 5) tens fives

/-- Multiplies `m` by ten the given number of times, if the result is in range. -/
def raise (m : Nat) : Nat → Option Nat
  | 0 => some m
  | tens + 1 => if m * 10 < bound then raise (m * 10) tens else none

/-- Drops the last digit, a half going up. -/
def dropHalfUp (m : Nat) : Nat := if 5 ≤ m % 10 then m / 10 + 1 else m / 10

/-- Brings a scale that is `excess` too large down to the largest one; a mantissa that runs out of
    digits is zero without fraction digits. -/
def lowerScale (m : Nat) : Nat → Nat × Nat
  | 0 => (m, maxScale)
  | excess + 1 => if m / 10 = 0 then (0, 0) else lowerScale (dropHalfUp m) excess

/-- Drops fraction digits while the mantissa has more than 52 bits. -/
def shortenMantissa (m : Nat) : Nat → Nat × Nat
  | 0 => (m, 0)
  | scale + 1 =>
    if 4503599627370496 ≤ m then shortenMantissa (dropHalfUp m) scale else (m, scale + 1)

/-- The decimal for `m * 2 ^ exponent`, if it is in range. -/
def ofScaledBinary? (negative : Bool) (m : Nat) (exponent : Int) : Option Decimal := do
  let (m, tens) ←
    if exponent < 0 then some (takeFives m exponent exponent.natAbs)
    else dropFives m exponent exponent.natAbs
  if 0 < tens then
    let m ← raise m tens.natAbs
    ofParts? negative m 0
  else
    let scale := tens.natAbs
    let (m, scale) := if maxScale < scale then lowerScale m (scale - maxScale) else (m, scale)
    let (m, scale) := shortenMantissa m scale
    let (m, scale) := stripZeros m scale
    ofParts? negative m scale

/-- The decimal for a double given by its bits; `none` for infinities, what is not a number, and
    magnitudes out of range. -/
def ofBinary64? (bits : UInt64) : Option Decimal :=
  let negative := bits.toNat / 9223372036854775808 = 1
  let exponent := bits.toNat / 4503599627370496 % 2048
  let fraction := bits.toNat % 4503599627370496
  if exponent = 2047 then none
  else if exponent = 0 then
    if fraction = 0 then ofParts? negative 0 0 else ofScaledBinary? negative fraction (-1074)
  else
    ofScaledBinary? negative (fraction + 4503599627370496) (exponent - 1075)

end Formula.Decimal
