import Formula.Decimal.Arithmetic

set_option autoImplicit false

/-! # Decimal text

`Decimal.write` writes a decimal with its scale and sign, so that `1.5` and `1.50` differ;
`Decimal.display` writes the value alone.

`Decimal.read?` reads plain text (`-12.50`, with `_` between digits) and exponent text
(`2.5e3`). Digits past the 28th fraction digit, or past the 96-bit mantissa, are rounded away, a
half going away from zero. -/

namespace Formula.Decimal

/-! ## Writing -/

/-- The digits of the mantissa, with zeros in front so that one stands before the point. -/
def digits (d : Decimal) : List Char :=
  let digits := Nat.toDigits 10 d.mantissa
  List.replicate (d.scale + 1 - digits.length) '0' ++ digits

/-- The number with all its fraction digits, and its sign even when it is zero. -/
def write (d : Decimal) : String :=
  let digits := d.digits
  let whole := digits.take (digits.length - d.scale)
  let fraction := digits.drop (digits.length - d.scale)
  String.ofList ((if d.negative then ['-'] else []) ++ whole ++
    (if d.scale = 0 then [] else '.' :: fraction))

/-- The value with the fewest fraction digits; zero is `0`. -/
def display (d : Decimal) : String := d.normalize.write

/-! ## Reading plain text -/

/-- The value of a decimal digit. -/
def digitValue (c : Char) : Nat := c.toNat - '0'.toNat

/-- The mantissa from which on a long text is read with wide arithmetic. -/
abbrev wideFrom : Nat := 1844674407370955161 - 255

/-- Finishes a number whose next character `c` is not taken any more: a digit of five or more rounds
    the mantissa up, and what follows may only hold digits and `_`. A mantissa that rounds up to the
    bound gives up one fraction digit. -/
def roundOff (mantissa scale : Nat) (c : Char) (tail : List Char) : Option (Nat × Nat) :=
  if !(c.isDigit || c == '_') || !tail.all (fun t => t.isDigit || t == '_') then none
  else if c.isDigit && 5 ≤ digitValue c then
    if mantissa + 1 < bound then some (mantissa + 1, scale)
    else
      match scale with
      | 0 => none
      | scale + 1 => some ((mantissa + 1 + 4) / 10, scale)
  else
    some (mantissa, scale)

/-- Finishes a number that has all its 28 fraction digits. Wide arithmetic passes over any `_`
    before it looks at the next digit; otherwise a `_` counts as a zero. -/
def roundFull (wide : Bool) (mantissa scale : Nat) (rest : List Char) : Option (Nat × Nat) :=
  match if wide then rest.dropWhile (· == '_') else rest with
  | [] => some (mantissa, scale)
  | c :: tail => roundOff mantissa scale c tail

/-- What has been read of a number. -/
structure Reading where
  mantissa : Nat := 0
  scale : Nat := 0
  wide : Bool := false
  point : Bool := false
  digit : Bool := false

/-- The reading after the digit `c`, not yet known to be in range. -/
def Reading.push (r : Reading) (c : Char) : Reading :=
  { r with
    mantissa := r.mantissa * 10 + digitValue c
    scale := if r.point then r.scale + 1 else r.scale
    digit := true }

/-- Reads the digits of an unsigned number: at most one point anywhere, and `_`
    anywhere after the first digit. -/
def readDigits (r : Reading) : List Char → Option (Nat × Nat)
  | [] => if r.digit then some (r.mantissa, r.scale) else none
  | c :: rest =>
    if c.isDigit then
      let next := r.push c
      if bound ≤ next.mantissa then
        if r.point then roundOff r.mantissa r.scale c rest else none
      else if next.point && next.scale == maxScale then
        roundFull r.wide next.mantissa next.scale rest
      else
        readDigits { next with wide := r.wide || decide (wideFrom ≤ next.mantissa) } rest
    else if c == '.' && !r.point then readDigits { r with point := true } rest
    else if c == '_' && r.digit then readDigits r rest
    else none

/-- The sign in front of a number, and what follows it. -/
def splitSign : List Char → Bool × List Char
  | '-' :: rest => (true, rest)
  | '+' :: rest => (false, rest)
  | text => (false, text)

/-- Reads a number without an exponent; zero loses its sign. -/
def readPlain? (text : List Char) : Option Decimal :=
  let (negative, text) := splitSign text
  (readDigits {} text).bind fun (m, s) => ofResult? negative m s

/-! ## Reading exponents -/

/-- Reads an exponent: an optional `-`, then an optional `+`, then digits of a number below 2^32. -/
def readExponent? (text : List Char) : Option (Bool × Nat) :=
  let (negative, text) := match text with
    | '-' :: rest => (true, rest)
    | text => (false, text)
  let text := match text with
    | '+' :: rest => rest
    | text => text
  let n := Nat.ofDigitChars 10 text 0
  if text.isEmpty || !text.all Char.isDigit || 4294967296 ≤ n then none else some (negative, n)

/-- Moves the point `n` places to the left by raising the scale. -/
def scaleDown? (d : Decimal) (n : Nat) : Option Decimal :=
  if maxScale < n then none else ofParts? d.negative d.mantissa (d.scale + n)

/-- Moves the point `n` places to the right: by lowering the scale if it is large enough, else by
    multiplying, and then without trailing fraction zeros. -/
def scaleUp? (d : Decimal) (n : Nat) : Option Decimal :=
  if n ≤ d.scale then ofParts? d.negative d.mantissa (d.scale - n)
  else if maxScale < n then none
  else do
    let first ← ofParts? false (tenPow (min n 19)) 0
    let second ← ofParts? false (tenPow (n - min n 19)) 0
    let product ← (← d.mul? first).mul? second
    return product.normalize

/-- Whether `c` starts an exponent. -/
def isExponentMark (c : Char) : Bool := c == 'e' || c == 'E'

/-- Reads a number that may have an exponent. A point in front of everything
    gets a zero before it. -/
def readChars? (text : List Char) : Option Decimal :=
  let text := match text with
    | '.' :: _ => '0' :: text
    | _ => text
  match text.dropWhile (!isExponentMark ·) with
  | [] => readPlain? text
  | _ :: exponent => do
    let base ← readPlain? (text.takeWhile (!isExponentMark ·))
    let (negative, n) ← readExponent? exponent
    if negative then base.scaleDown? n else base.scaleUp? n

/-- Reads a number from the whole of `text`. -/
def read? (text : String) : Option Decimal := readChars? text.toList

end Formula.Decimal
