import Formula.Token.Basic

set_option autoImplicit false

/-! # Names and types

How names group with the symbols around them: dotted names, and the types that make a parenthesis a
conversion. -/

namespace Formula

/-- The names that are literals. -/
def isKeyword (name : String) : Bool := name == "true" || name == "false" || name == "null"

/-- The types that have a name of their own. Only behind one of them can a sign start
    the operand of a conversion. -/
def predefinedTypes : List String :=
  ["bool", "byte", "char", "decimal", "double", "float", "int", "long", "object", "sbyte", "short",
    "string", "uint", "ulong", "ushort"]

/-- The names that follow, each behind a dot. -/
def memberNames : List Token → List String
  | ⟨.symbol .dot, _⟩ :: ⟨.name name, _⟩ :: rest => name :: memberNames rest
  | _ => []

/-- What is left behind an optional `?`. -/
def dropQuestion : List Token → List Token
  | ⟨.symbol .question, _⟩ :: rest => rest
  | tokens => tokens

/-- What is left behind any number of `[]`. -/
def dropBrackets : List Token → List Token
  | ⟨.symbol .openBracket, _⟩ :: ⟨.symbol .closeBracket, _⟩ :: rest => dropBrackets rest
  | tokens => tokens

/-- Whether a token can only start an operand. -/
def Token.Kind.startsOperand : Token.Kind → Bool
  | name _ | number _ | string _ | character => true
  | symbol s => s == .openParen || s == .bang || s == .tilde

/-- Whether a token is a sign, which can start an operand or join two. -/
def Token.Kind.isSign : Token.Kind → Bool
  | symbol s => s == .plus || s == .minus
  | _ => false

/-- If the tokens behind an opening parenthesis are a type, its closing parenthesis and then an
    operand, the tokens from the operand on. A sign starts an operand only behind a predefined type;
    otherwise the parenthesis is an operand itself. -/
def conversionOperand? : List Token → Option (List Token)
  | ⟨.name name, _⟩ :: rest =>
    let members := memberNames rest
    match dropBrackets (dropQuestion (rest.drop (2 * members.length))) with
    | ⟨.symbol .closeParen, _⟩ :: operand =>
      let starts (token : Token) : Bool := token.kind.startsOperand ||
        (token.kind.isSign && members.isEmpty && predefinedTypes.contains name)
      if !isKeyword name && operand.head?.any starts then some operand else none
    | _ => none
  | _ => none

end Formula
