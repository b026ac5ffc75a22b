import Formula.Parser.Grammar
import Formula.Token.Lexer

set_option autoImplicit false

/-! # Parsing

From the text of a formula to its expression. -/

namespace Formula

/-- How deep a formula may nest. -/
structure ParseOptions where
  maxDepth : Nat := 256
  deriving DecidableEq, Inhabited

namespace ParseOptions

/-- The same options with another limit. -/
def withMaxDepth (options : ParseOptions) (maxDepth : Nat) : ParseOptions :=
  { options with maxDepth }

end ParseOptions

/-- The expression of a text, or why there is none, and the constructs that were
    folded until then. -/
def parseRecording (options : ParseOptions) (text : String) : Except ParseError Expr × List Fold :=
  match Token.tokenize text with
  | .error e => (.error e, [])
  | .ok tokens =>
    let setting := ⟨text.utf8ByteSize, options.maxDepth⟩
    let reply := Parser.formula options.maxDepth setting tokens
    (reply.result.map Prod.fst, reply.folds)

/-- The expression of a text. -/
def parseWith (options : ParseOptions) (text : String) : Except ParseError Expr :=
  (parseRecording options text).1

/-- The expression of a text under the default options. -/
def parse (text : String) : Except ParseError Expr := parseWith {} text

end Formula
