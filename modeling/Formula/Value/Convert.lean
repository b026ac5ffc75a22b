import Formula.Decimal.Binary64
import Formula.Error
import Formula.Text.Blank

set_option autoImplicit false

/-! # Conversions of values

Arithmetic converts its operands to decimals, logic to truth values. A string converts to the number
that it spells, blanks around it ignored; only a truth value is a truth value. -/

namespace Formula.Value

/-- The number that a value stands for: one or zero for a truth value, the numeral's value for a
    string. -/
def toDecimal : Value → Except EvalError Decimal
  | number n => .ok n
  | boolean true => .ok .one
  | boolean false => .ok .zero
  | string s =>
    match Decimal.readChars? (trim s.toList) with
    | some n => .ok n
    | none => .error (.coercion (string s) .number)

/-- The truth value, if the value is one. -/
def toBool : Value → Except EvalError Bool
  | boolean b => .ok b
  | v => .error (.coercion v .boolean)

/-- The double for the number that a value stands for. -/
def toBinary64 (v : Value) : Except EvalError Float :=
  v.toDecimal.map Decimal.toBinary64

/-- The number for a double given by its bits, if a decimal can hold it. -/
def ofBinary64? (bits : UInt64) : Option Value :=
  (Decimal.ofBinary64? bits).map number

end Formula.Value
