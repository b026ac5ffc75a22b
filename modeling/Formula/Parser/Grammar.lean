import Formula.Parser.Basic
import Formula.Parser.Word

set_option autoImplicit false

/-! # The grammar

One parser for each level of the grammar, loosest first: conditionals, ten levels of binary
operators, all of which group to the left, unary operators and conversions, primary
expressions with what follows them.

Nesting is limited by a budget. An expression, a unary operator, a conversion and each further
operator of a chain take one from it, and it is back as soon as they are done. A chain's operators
take theirs together, because each of them deepens the tree. The recursion ends because every call
either takes from the budget or goes to a tighter level; sixteen steps are counted for each unit of
the budget, more than there are levels. -/

namespace Formula

/-! ## Operators -/

/-- How tightly a binary operator binds, from 0 on. -/
def Symbol.level? : Symbol → Option Nat
  | coalesce => some 0
  | either => some 1
  | both => some 2
  | bar => some 3
  | caret => some 4
  | ampersand => some 5
  | equal | notEqual | less | lessEqual | greater | greaterEqual => some 6
  | shiftLeft | shiftRight => some 7
  | plus | minus => some 8
  | star | slash | percent => some 9
  | _ => none

/-- The number of levels of binary operators. -/
def levelCount : Nat := 10

/-- The symbol, if a token is a binary operator of this level. -/
def Token.Kind.operatorAt? (level : Nat) : Token.Kind → Option Symbol
  | symbol s => if s.level? = some level then some s else none
  | _ => none

/-- The symbol, if a token is a unary operator. -/
def Token.Kind.unaryOperator? : Token.Kind → Option Symbol
  | symbol s =>
    match s with
    | .minus | .bang | .plus | .tilde => some s
    | _ => none
  | _ => none

namespace Parser

/-! ## Lists of expressions -/

/-- Expressions with commas between them, up to the closing symbol; `commas` bounds the commas, and
    the number of tokens is enough. -/
def argumentsFrom (item : Parser Expr) (close : Symbol) (commas : Nat) : Parser (List Expr) := do
  let first ← item
  if ← accept close then return [first]
  else
    match commas with
    | 0 => fail (.expectedCommaOr close (← next?))
    | commas + 1 =>
      if ← accept .comma then return first :: (← argumentsFrom item close commas)
      else fail (.expectedCommaOr close (← next?))

/-- What stands between an opening symbol, which has been taken, and the closing one. -/
def arguments (item : Parser Expr) (close : Symbol) : Parser (List Expr) := do
  if ← accept close then return [] else argumentsFrom item close (← tokens).length

/-! ## Primary expressions -/

/-- A name that has been taken, at `start`: a literal, a call, a member access or a parameter. -/
def named (item : Parser Expr) (start : Nat) (name : String) : Parser Expr := do
  match name with
  | "true" => return .constant (.boolean true)
  | "false" => return .constant (.boolean false)
  | "null" => fold .nullLiteral start
  | _ =>
    let members := memberNames (← tokens)
    skip (2 * members.length)
    if ← accept .openParen then
      return .call (String.intercalate "." (name :: members)) (← arguments item .closeParen)
    else if members.isEmpty then
      return .parameter name
    else
      fold .memberAccess start

/-- A literal, a name, a call or a parenthesis. -/
def primary (item : Parser Expr) : Parser Expr := do
  let start ← position
  match ← next? with
  | some (.number value) =>
    skip 1
    return .constant (.number value)
  | some (.string value) =>
    skip 1
    return .constant (.string value)
  | some .character =>
    skip 1
    fold .characterLiteral start
  | some (.name name) =>
    skip 1
    named item start name
  | some (.symbol .openParen) =>
    skip 1
    let inner ← item
    expect .closeParen
    return inner
  | some found => fail (.expectedExpression found)
  | none => fail .unexpectedEnd

/-- What follows a primary expression: invocations of it, accesses to its elements and
    members. Each of them folds all that stands before it; `count` bounds them, and the
    number of tokens is enough. -/
def suffixes (item : Parser Expr) : Nat → Expr → Parser Expr
  | 0, e => return e
  | count + 1, e => do
    let start ← position
    match ← next? with
    | some (.symbol .openParen) =>
      skip 1
      let _ ← arguments item .closeParen
      suffixes item count (← fold .computedInvocation start)
    | some (.symbol .openBracket) =>
      skip 1
      let _ ← arguments item .closeBracket
      suffixes item count (← fold .elementAccess start)
    | some (.symbol .dot) =>
      skip 1
      match ← next? with
      | some (.name _) =>
        skip 1
        suffixes item count (← fold .memberAccess start)
      | found => fail (.expectedMember found)
    | _ => return e

/-- The tokens from the operand on, if a conversion comes next. -/
def conversion? : Parser (Option (List Token)) := do
  match ← tokens with
  | ⟨.symbol .openParen, _⟩ :: rest => return conversionOperand? rest
  | _ => return none

/-! ## Expressions -/

mutual

/-- A conditional, or a chain of the loosest operators. -/
def expression (budget : Nat) : Parser Expr :=
  match budget with
  | 0 => tooDeep
  | budget + 1 => do
    let condition ← binary 0 budget
    if ← accept .question then
      let ifTrue ← expression budget
      expect .colon
      let ifFalse ← expression budget
      return .conditional condition ifTrue ifFalse
    else
      return condition
  termination_by 16 * budget
  decreasing_by all_goals simp_all [levelCount] <;> omega

/-- A chain of operators of this level over operands of the next one. -/
def binary (level budget : Nat) : Parser Expr :=
  if level < levelCount then do
    chain level budget (← binary (level + 1) budget)
  else
    unary budget
  termination_by 16 * budget + 3 + (levelCount - level)
  decreasing_by all_goals simp_all [levelCount] <;> omega

/-- The rest of a chain whose left part has been read. -/
def chain (level budget : Nat) (left : Expr) : Parser Expr := do
  match (← next?).bind (Token.Kind.operatorAt? level) with
  | none => return left
  | some operator =>
    skip 1
    match budget with
    | 0 => tooDeep
    | budget + 1 =>
      let right ← binary (level + 1) budget
      chain level budget (.binary operator.text left right)
  termination_by 16 * budget + 2
  decreasing_by all_goals simp_all [levelCount] <;> omega

/-- Unary operators and conversions in front of a primary expression with its suffixes. The operand
    of a conversion is read and dropped. -/
def unary (budget : Nat) : Parser Expr := do
  match (← next?).bind Token.Kind.unaryOperator? with
  | some operator =>
    skip 1
    match budget with
    | 0 => tooDeep
    | budget + 1 => return .unary operator.text (← unary budget)
  | none =>
    let start ← position
    match ← conversion? with
    | some operand =>
      resume operand
      match budget with
      | 0 => tooDeep
      | budget + 1 =>
        let _ ← unary budget
        fold .typeConversion start
    | none =>
      let e ← primary (expression budget)
      suffixes (expression budget) (← tokens).length e
  termination_by 16 * budget + 1

end

/-- A whole text: an expression with nothing behind it. -/
def formula (budget : Nat) : Parser Expr := do
  let e ← expression budget
  match ← next? with
  | none => return e
  | some (.symbol .closeParen) => fail (.unmatched .closeParen)
  | some (.symbol .closeBracket) => fail (.unmatched .closeBracket)
  | some found => fail (.afterExpression found)

end Parser

end Formula
