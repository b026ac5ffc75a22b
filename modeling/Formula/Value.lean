import Formula.Decimal.Text

set_option autoImplicit false

/-! # Values

A literal of a formula, or what a formula evaluates to. As with decimals, `=` compares what is
stored and `Value.same` compares numbers by value. -/

namespace Formula

/-- A number, a text or a truth value. -/
inductive Value where
  | number (n : Decimal)
  | string (s : String)
  | boolean (b : Bool)
  deriving DecidableEq, Inhabited

/-- The kinds of values. -/
inductive ValueKind where
  | number
  | string
  | boolean
  deriving DecidableEq, Inhabited

/-- The kind's name in messages. -/
def ValueKind.name : ValueKind → String
  | number => "number"
  | string => "string"
  | boolean => "boolean"

namespace Value

/-- The kind of a value. -/
def kind : Value → ValueKind
  | number _ => .number
  | string _ => .string
  | boolean _ => .boolean

/-- The number, if the value is one. -/
def number? : Value → Option Decimal
  | number n => some n
  | _ => none

/-- The text, if the value is one. -/
def string? : Value → Option String
  | string s => some s
  | _ => none

/-- The truth value, if the value is one. -/
def boolean? : Value → Option Bool
  | boolean b => some b
  | _ => none

/-- Numbers show their value with the fewest fraction digits, texts stand for themselves. -/
def display : Value → String
  | number n => n.display
  | string s => s
  | boolean true => "true"
  | boolean false => "false"

/-- The value as messages name it: its kind and its text, a string in quotes. -/
def describe : Value → String
  | string s => "string \"" ++ s ++ "\""
  | v => v.kind.name ++ " " ++ v.display

/-- Equality of values of one kind, numbers by value; values of different kinds differ. -/
def same : Value → Value → Bool
  | number a, number b => a.same b
  | string a, string b => a == b
  | boolean a, boolean b => a == b
  | _, _ => false

end Value

end Formula
