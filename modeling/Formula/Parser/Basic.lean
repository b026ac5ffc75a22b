import Formula.Expr.Basic
import Formula.ParseError
import Formula.Parser.Fold

set_option autoImplicit false

/-! # Parsers

A parser reads from the front of a list of tokens. It answers with what it has read and the tokens
that are left, or with an error; either way the answer carries the constructs that were folded on
the way. Every error is reported at the next token, or at the end of the text when there is none. -/

namespace Formula

/-- What a parser answers. -/
structure Reply (α : Type) where
  folds : List Fold
  result : Except ParseError (α × List Token)

/-- What stays fixed while a text is parsed: the position of its end and the limit on nesting, which
    is needed for the message only. -/
structure Setting where
  stop : Nat
  maxDepth : Nat

/-- A parser for `α`. -/
def Parser (α : Type) : Type := Setting → List Token → Reply α

namespace Parser

variable {α β : Type}

/-- Reads nothing. -/
protected def pure (a : α) : Parser α := fun _ tokens => ⟨[], .ok (a, tokens)⟩

/-- Goes on with what `p` has read, on the tokens that it has left. -/
protected def bind (p : Parser α) (f : α → Parser β) : Parser β := fun setting tokens =>
  match p setting tokens with
  | ⟨folds, .error e⟩ => ⟨folds, .error e⟩
  | ⟨folds, .ok (a, rest)⟩ =>
    let reply := f a setting rest
    ⟨folds ++ reply.folds, reply.result⟩

instance : Monad Parser where
  pure := Parser.pure
  bind := Parser.bind

instance : Inhabited (Parser α) := ⟨fun _ _ => ⟨[], .error default⟩⟩

/-! ## Looking ahead -/

/-- The tokens that are left. -/
def tokens : Parser (List Token) := fun _ tokens => ⟨[], .ok (tokens, tokens)⟩

/-- The next token, if there is one. -/
def next? : Parser (Option Token.Kind) := do return (← tokens).head?.map Token.kind

/-- The position of the next token, or of the end of the text. -/
def position : Parser Nat := fun setting tokens =>
  ⟨[], .ok ((tokens.head?.map Token.position).getD setting.stop, tokens)⟩

/-! ## Acting -/

/-- Takes `n` tokens. -/
def skip (n : Nat) : Parser Unit := fun _ tokens => ⟨[], .ok ((), tokens.drop n)⟩

/-- Goes on at `rest`, which must be behind the next token. -/
def resume (rest : List Token) : Parser Unit := fun _ _ => ⟨[], .ok ((), rest)⟩

/-- Reports an error at the next token. -/
def fail (cause : ParseError.Cause) : Parser α := fun setting tokens =>
  ⟨[], .error ⟨(tokens.head?.map Token.position).getD setting.stop, cause⟩⟩

/-- Reports that the nesting limit is exceeded. -/
def tooDeep : Parser α := fun setting tokens => fail (.tooDeep setting.maxDepth) setting tokens

/-- Takes a symbol if it comes next, and tells whether it did. -/
def accept (symbol : Symbol) : Parser Bool := do
  if (← next?) = some (.symbol symbol) then
    skip 1
    return true
  else
    return false

/-- Takes a symbol, which must come next. -/
def expect (symbol : Symbol) : Parser Unit := do
  if ← accept symbol then return () else fail (.expected symbol (← next?))

/-- Folds a construct that is reported at `position`. -/
def fold (construct : Construct) (position : Nat) : Parser Expr := fun _ tokens =>
  ⟨[⟨construct, position⟩], .ok (.unsupported construct.explanation, tokens)⟩

end Parser

end Formula
