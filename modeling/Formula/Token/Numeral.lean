import Formula.ParseError

set_option autoImplicit false

/-! # Numerals

A numeral is cut off the front of a text in three parts: digits, a point with digits behind it, and
an exponent with digits behind it. A part that does not have its digits is left to the tokens that
follow, so `1.x` is a member access. One letter may follow as a type suffix; it has no meaning, but
no further letter or digit may stand behind it. -/

namespace Formula.Numeral

/-- A letter, a digit or `_`, all ASCII. -/
def isWordChar (c : Char) : Bool := c.isAlphanum || c == '_'

/-! ## Decimal numerals -/

/-- The point and the digits behind it at the front of the text. -/
def pointPart : List Char → List Char
  | '.' :: rest =>
    let digits := rest.takeWhile Char.isDigit
    if digits.isEmpty then [] else '.' :: digits
  | _ => []

/-- The sign at the front of the text. -/
def signPart : List Char → List Char
  | '+' :: _ => ['+']
  | '-' :: _ => ['-']
  | _ => []

/-- The exponent mark, sign and digits at the front of the text. -/
def exponentPart : List Char → List Char
  | mark :: rest =>
    let sign := signPart rest
    let digits := (rest.drop sign.length).takeWhile Char.isDigit
    if Decimal.isExponentMark mark && !digits.isEmpty then mark :: (sign ++ digits) else []
  | [] => []

/-- The longest decimal numeral at the front of the text. -/
def decimalPart (text : List Char) : List Char :=
  let whole := text.takeWhile Char.isDigit
  let rest := text.drop whole.length
  let point := pointPart rest
  whole ++ (point ++ exponentPart (rest.drop point.length))

/-! ## Suffixes -/

/-- The letters that may stand behind a numeral. -/
def isSuffix (c : Char) : Bool :=
  ['m', 'M', 'd', 'D', 'f', 'F', 'l', 'L', 'u', 'U'].contains c

/-- The suffix at the front of the text. -/
def suffixPart : List Char → List Char
  | c :: _ => if isSuffix c then [c] else []
  | [] => []

/-- The length of a literal that starts with `numeral` and goes on in `rest`: the numeral and its
    suffix. A word that runs on is an error that shows all of it. -/
def literalLength (numeral rest : List Char) : Except ParseError.Cause Nat :=
  let suffix := suffixPart rest
  let after := rest.drop suffix.length
  match after with
  | [] => .ok (numeral.length + suffix.length)
  | c :: _ =>
    if isWordChar c then
      let tail := after.takeWhile fun c => isWordChar c || c == '.'
      .error (.invalidNumber (String.ofList (numeral ++ (suffix ++ tail))))
    else
      .ok (numeral.length + suffix.length)

/-! ## Literals -/

/-- The decimal literal at the front of the text: its value and its length. -/
def scanDecimal (text : List Char) : Except ParseError.Cause (Decimal × Nat) := do
  let numeral := decimalPart text
  let length ← literalLength numeral (text.drop numeral.length)
  match Decimal.readChars? numeral with
  | some value => return (value, length)
  | none => .error (.numberOutOfRange (String.ofList numeral))

/-- A hexadecimal digit. -/
def isHexDigit (c : Char) : Bool :=
  c.isDigit || ('a' ≤ c && c ≤ 'f') || ('A' ≤ c && c ≤ 'F')

/-- The value of a hexadecimal digit. -/
def hexValue (c : Char) : Nat :=
  if c.isDigit then c.toNat - '0'.toNat
  else if 'a' ≤ c then c.toNat - 'a'.toNat + 10
  else c.toNat - 'A'.toNat + 10

/-- The number that hexadecimal digits spell. -/
def ofHexDigits (digits : List Char) : Nat :=
  digits.foldl (fun n c => n * 16 + hexValue c) 0

/-- The hexadecimal literal whose digits are at the front of `text`, behind the mark `0x`: its
    value, which must be below 2^64, and its length with the mark. -/
def scanHex (mark text : List Char) : Except ParseError.Cause (Decimal × Nat) := do
  let digits := text.takeWhile isHexDigit
  if digits.isEmpty then .error .hexWithoutDigits
  let length ← literalLength (mark ++ digits) (text.drop digits.length)
  let n := ofHexDigits digits
  if h : n < 18446744073709551616 then return (Decimal.ofWord n h, length)
  else .error .hexTooLarge

/-- The literal at the front of a text that starts with a digit or a point: its
    value and its length. -/
def scan : List Char → Except ParseError.Cause (Decimal × Nat)
  | '0' :: 'x' :: text => scanHex ['0', 'x'] text
  | '0' :: 'X' :: text => scanHex ['0', 'X'] text
  | text => scanDecimal text

end Formula.Numeral
