import Formula.Token.Basic

set_option autoImplicit false

/-! # Parse errors

Text is refused only where it cannot be cut into tokens, where its brackets do not match, or
where it nests too deeply. An error is a cause and the byte offset that it is reported at;
the wording is in `message`. -/

namespace Formula

/-- Why text is not a formula. A token that was found instead of what was expected is
    `none` at the end of the text. -/
inductive ParseError.Cause where
  | assignment
  | numberOutOfRange (numeral : String)
  | invalidNumber (word : String)
  | hexWithoutDigits
  | hexTooLarge
  | unterminatedString
  | emptyCharacter
  | unterminatedCharacter
  | invalidEscape
  | unexpectedCharacter (c : Char)
  | tooDeep (limit : Nat)
  | unexpectedEnd
  | expectedExpression (found : Token.Kind)
  | expected (symbol : Symbol) (found : Option Token.Kind)
  | expectedCommaOr (close : Symbol) (found : Option Token.Kind)
  | expectedMember (found : Option Token.Kind)
  | unmatched (close : Symbol)
  | afterExpression (found : Token.Kind)
  deriving DecidableEq, Inhabited

/-- The text of a cause, without the position. -/
def ParseError.Cause.message : Cause → String
  | assignment => "assignment is not an expression; expected '=='"
  | numberOutOfRange numeral => "numeric literal '" ++ numeral ++ "' is out of range"
  | invalidNumber word => "invalid numeric literal '" ++ word ++ "'"
  | hexWithoutDigits => "hexadecimal literal has no digits"
  | hexTooLarge => "invalid hexadecimal literal: number too large to fit in target type"
  | unterminatedString => "unterminated string literal"
  | emptyCharacter => "empty or unterminated character literal"
  | unterminatedCharacter => "unterminated character literal"
  | invalidEscape => "invalid escape sequence"
  | unexpectedCharacter c => "unexpected character '" ++ String.singleton c ++ "'"
  | tooDeep limit => "expression nesting exceeds the maximum depth of " ++ toString limit
  | unexpectedEnd => "unexpected end of input"
  | expectedExpression found => "expected expression, found " ++ found.describe
  | expected symbol found =>
    "expected " ++ (Token.Kind.symbol symbol).describe ++ ", found " ++
      Token.Kind.describeNext found
  | expectedCommaOr close found =>
    "expected ',' or " ++ (Token.Kind.symbol close).describe ++ ", found " ++
      Token.Kind.describeNext found
  | expectedMember found => "expected member name, found " ++ Token.Kind.describeNext found
  | unmatched close => "unmatched " ++ (Token.Kind.symbol close).describe
  | afterExpression found => "unexpected " ++ found.describe ++ " after expression"

/-- A cause and the byte offset that it is reported at. -/
structure ParseError where
  position : Nat
  cause : ParseError.Cause
  deriving DecidableEq, Inhabited

/-- The text of the error with its position. -/
def ParseError.message (e : ParseError) : String :=
  e.cause.message ++ " at position " ++ toString e.position

end Formula
