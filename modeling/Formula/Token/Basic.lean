import Formula.Decimal.Text

set_option autoImplicit false

/-! # Tokens

The words of a formula: names, literals and symbols, each with the place where it starts. The end
of the text is not a token; where a message needs a name for what comes next,
`Token.Kind.describeNext` has one for it. -/

namespace Formula

/-- Operators and punctuation. -/
inductive Symbol where
  | plus
  | minus
  | star
  | slash
  | percent
  | caret
  | tilde
  | bang
  | equal
  | notEqual
  | less
  | lessEqual
  | greater
  | greaterEqual
  | shiftLeft
  | shiftRight
  | ampersand
  | both
  | bar
  | either
  | question
  | coalesce
  | colon
  | dot
  | comma
  | openParen
  | closeParen
  | openBracket
  | closeBracket
  deriving DecidableEq, Inhabited

/-- How a symbol is written. -/
def Symbol.text : Symbol → String
  | plus => "+"
  | minus => "-"
  | star => "*"
  | slash => "/"
  | percent => "%"
  | caret => "^"
  | tilde => "~"
  | bang => "!"
  | equal => "=="
  | notEqual => "!="
  | less => "<"
  | lessEqual => "<="
  | greater => ">"
  | greaterEqual => ">="
  | shiftLeft => "<<"
  | shiftRight => ">>"
  | ampersand => "&"
  | both => "&&"
  | bar => "|"
  | either => "||"
  | question => "?"
  | coalesce => "??"
  | colon => ":"
  | dot => "."
  | comma => ","
  | openParen => "("
  | closeParen => ")"
  | openBracket => "["
  | closeBracket => "]"

/-- What a token says. A character literal is only known to be one. -/
inductive Token.Kind where
  | name (name : String)
  | number (value : Decimal)
  | string (value : String)
  | character
  | symbol (symbol : Symbol)
  deriving DecidableEq, Inhabited

/-- A token and the byte offset of its first character. -/
structure Token where
  kind : Token.Kind
  position : Nat
  deriving DecidableEq, Inhabited

namespace Token.Kind

/-- The token as messages name it; a number shows its scale. -/
def describe : Kind → String
  | name s => "identifier '" ++ s ++ "'"
  | number d => "number " ++ d.write
  | string _ => "string literal"
  | character => "character literal"
  | symbol s => "'" ++ s.text ++ "'"

/-- What comes next, as messages name it. -/
def describeNext : Option Kind → String
  | some kind => kind.describe
  | none => "end of input"

end Token.Kind

end Formula
