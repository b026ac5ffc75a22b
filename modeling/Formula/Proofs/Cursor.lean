import Formula.Parse
import Formula.Proofs.ByteLexer

set_option autoImplicit false

/-! # A parser with a place and a counter

A parser that keeps a place among the tokens and counts the levels that are open. It looks
at the tokens through their index, goes on by moving the place, and stays where it is at
the end of the text. Its procedures call each other, and themselves for as long as
something may come again. Nothing in them says that this ends: what they do is what they do
with ever more calls inside each other. -/

namespace Formula.Cursor

open Token (Kind)
open Bytes (Lexeme)

/-- What is parsed: the tokens with the end of the text behind them, and the limit on nesting. -/
structure Source where
  lexemes : List Lexeme
  maxDepth : Nat

/-- Tokens and the end of the text behind them. -/
def lexemesOf (tokens : List Token) (stop : Nat) : List Lexeme :=
  tokens.map (fun token => ⟨some token.kind, token.position⟩) ++ [⟨none, stop⟩]

/-- How far a parser has come, how many levels are open, and what has been folded. -/
structure State where
  place : Nat
  depth : Nat
  folds : List Fold

/-- What a procedure does; `none` where it runs out of calls, looks for a token where there is none,
    or closes a level that is not open. -/
abbrev Act (α : Type) : Type := ExceptT ParseError (StateT State Option) α

namespace Act

variable {α : Type}

/-- What comes of it from a state: a result or an error, and the state behind it. -/
def run (act : Act α) (s : State) : Option (Except ParseError α × State) :=
  StateT.run (ExceptT.run act) s

/-- Does not go on. -/
def stuck : Act α := fun _ => none

end Act

/-! ## Tokens and levels -/

section Acting

variable (source : Source)

/-- The token some places ahead, or the last one. -/
def peekAt (offset : Nat) : Act Lexeme := do
  let state ← get
  match source.lexemes[min (state.place + offset) (source.lexemes.length - 1)]? with
  | some lexeme => return lexeme
  | none => Act.stuck

/-- The next token. -/
def peek : Act Lexeme := peekAt source 0

/-- Goes behind the next token, unless it is the last one. -/
def bump : Act Unit :=
  modify fun state =>
    if state.place + 1 < source.lexemes.length then { state with place := state.place + 1 }
    else state

/-- Takes a symbol, which must come next. -/
def expect (symbol : Symbol) : Act Unit := do
  let next ← peek source
  if next.kind = some (.symbol symbol) then bump source
  else throw ⟨next.position, .expected symbol next.kind⟩

/-- Opens a level. -/
def descend : Act Unit := do
  modify fun state => { state with depth := state.depth + 1 }
  if source.maxDepth < (← get).depth then
    throw ⟨(← peek source).position, .tooDeep source.maxDepth⟩

/-- Closes levels, which must be open. -/
def ascend (levels : Nat) : Act Unit := do
  if levels ≤ (← get).depth then modify fun state => { state with depth := state.depth - levels }
  else Act.stuck

/-- Folds a construct that is reported at `position`. -/
def fold (construct : Construct) (position : Nat) : Act Expr := do
  modify fun state => { state with folds := state.folds ++ [⟨construct, position⟩] }
  return .unsupported construct.explanation

end Acting

/-! ## Conversions -/

section Lookahead

variable (lexemes : List Lexeme)

theorem lt_of_lexeme {lexemes : List Lexeme} {i : Nat} {lexeme : Lexeme}
    (h : lexemes[i]? = some lexeme) : i < lexemes.length :=
  (List.getElem?_eq_some_iff.1 h).1

/-- The end of the members that start at an index, and whether there are any. -/
def membersEnd (i : Nat) (qualified : Bool) : Option (Nat × Bool) :=
  match _h : lexemes[i]? with
  | none => none
  | some first =>
    if first.kind = some (.symbol .dot) then
      match lexemes[i + 1]? with
      | none => none
      | some second =>
        match second.kind with
        | some (.name _) => membersEnd (i + 2) true
        | _ => some (i, qualified)
    else
      some (i, qualified)
  termination_by lexemes.length - i
  decreasing_by
    have := lt_of_lexeme _h
    omega

/-- The end of an optional `?` at an index. -/
def markEnd (i : Nat) : Option Nat :=
  lexemes[i]?.map fun mark => if mark.kind = some (.symbol .question) then i + 1 else i

/-- The end of any number of `[]` that start at an index. -/
def bracketsEnd (i : Nat) : Option Nat :=
  match _h : lexemes[i]? with
  | none => none
  | some first =>
    if first.kind = some (.symbol .openBracket) then
      match lexemes[i + 1]? with
      | none => none
      | some second =>
        if second.kind = some (.symbol .closeBracket) then bracketsEnd (i + 2) else some i
    else
      some i
  termination_by lexemes.length - i
  decreasing_by
    have := lt_of_lexeme _h
    omega

/-- If a conversion starts at the opening parenthesis at a place, the place
    behind its closing one. -/
def castEnd (place : Nat) : Option Nat := do
  let first ← lexemes[place + 1]?
  match first.kind with
  | some (.name name) =>
    if isKeyword name then none
    else
      let (afterName, qualified) ← membersEnd lexemes (place + 2) false
      let afterMark ← markEnd lexemes afterName
      let close ← bracketsEnd lexemes afterMark
      let last ← lexemes[close]?
      if last.kind = some (.symbol .closeParen) then
        let operand ← lexemes[close + 1]?
        let starts (kind : Kind) : Bool :=
          kind.startsOperand || (kind.isSign && !qualified && predefinedTypes.contains name)
        if operand.kind.any starts then some (close + 1) else none
      else none
  | _ => none

end Lookahead

/-! ## Procedures -/

/-- The procedures that call each other. -/
structure Procedures where
  /-- A conditional, or a chain of the loosest operators. -/
  expression : Act Expr
  /-- A chain of operators of this level over operands of the next one. -/
  binary (level : Nat) : Act Expr
  /-- The rest of a chain whose left part has been read, with so many operators. -/
  chain (level : Nat) (left : Expr) (chained : Nat) : Act Expr
  /-- Unary operators and conversions in front of a primary expression with what follows it. -/
  unary : Act Expr
  /-- A conversion; its operand is read and dropped. -/
  cast : Act Expr
  /-- A literal, a name, a call or a parenthesis. -/
  primary : Act Expr
  /-- The names that follow, each behind a dot, and those that were taken before. -/
  members (names : List String) : Act (List String)
  /-- What follows a primary expression: invocations of it, accesses to its elements and members. -/
  suffixes (e : Expr) : Act Expr
  /-- What stands between an opening symbol, which has been taken, and the closing one. -/
  arguments (close : Symbol) : Act (List Expr)
  /-- Expressions with commas between them, up to the closing symbol, and those
      that were read before. -/
  items (close : Symbol) (before : List Expr) : Act (List Expr)

namespace Body

variable (source : Source) (call : Procedures)

def expression : Act Expr := do
  descend source
  let condition ← call.binary 0
  if (← peek source).kind = some (.symbol .question) then
    bump source
    let ifTrue ← call.expression
    expect source .colon
    let ifFalse ← call.expression
    ascend 1
    return .conditional condition ifTrue ifFalse
  else
    ascend 1
    return condition

def binary (level : Nat) : Act Expr :=
  if level = levelCount then call.unary
  else do
    let first ← call.binary (level + 1)
    call.chain level first 0

def chain (level : Nat) (left : Expr) (chained : Nat) : Act Expr := do
  match (← peek source).kind.bind (Kind.operatorAt? level) with
  | some operator =>
    bump source
    descend source
    let right ← call.binary (level + 1)
    call.chain level (.binary operator.text left right) (chained + 1)
  | none =>
    ascend chained
    return left

def unary : Act Expr := do
  let next ← peek source
  match next.kind.bind Kind.unaryOperator? with
  | some operator =>
    bump source
    descend source
    let operand ← call.unary
    ascend 1
    return .unary operator.text operand
  | none =>
    if next.kind = some (.symbol .openParen) ∧ (castEnd source.lexemes (← get).place).isSome then
      call.cast
    else
      let e ← call.primary
      call.suffixes e

def cast : Act Expr := do
  let start ← peek source
  modify fun state => { state with place := (castEnd source.lexemes state.place).getD state.place }
  descend source
  let _ ← call.unary
  ascend 1
  fold .typeConversion start.position

/-- A name that has been taken, at `start`. -/
def named (start : Nat) (name : String) : Act Expr := do
  match name with
  | "true" => return .constant (.boolean true)
  | "false" => return .constant (.boolean false)
  | "null" => fold .nullLiteral start
  | _ =>
    let others ← call.members []
    if (← peek source).kind = some (.symbol .openParen) then
      bump source
      let es ← call.arguments .closeParen
      return .call (String.intercalate "." (name :: others)) es
    else if others.isEmpty then
      return .parameter name
    else
      fold .memberAccess start

def primary : Act Expr := do
  let next ← peek source
  match next.kind with
  | some (.number value) =>
    bump source
    return .constant (.number value)
  | some (.string value) =>
    bump source
    return .constant (.string value)
  | some .character =>
    bump source
    fold .characterLiteral next.position
  | some (.name name) =>
    bump source
    named source call next.position name
  | some (.symbol .openParen) =>
    bump source
    let inner ← call.expression
    expect source .closeParen
    return inner
  | some found => throw ⟨next.position, .expectedExpression found⟩
  | none => throw ⟨next.position, .unexpectedEnd⟩

def members (names : List String) : Act (List String) := do
  if (← peek source).kind = some (.symbol .dot) then
    match (← peekAt source 1).kind with
    | some (.name name) =>
      bump source
      bump source
      call.members (names ++ [name])
    | _ => return names
  else
    return names

def suffixes (e : Expr) : Act Expr := do
  let next ← peek source
  match next.kind with
  | some (.symbol .openParen) =>
    bump source
    let _ ← call.arguments .closeParen
    call.suffixes (← fold .computedInvocation next.position)
  | some (.symbol .openBracket) =>
    bump source
    let _ ← call.arguments .closeBracket
    call.suffixes (← fold .elementAccess next.position)
  | some (.symbol .dot) =>
    bump source
    let member ← peek source
    match member.kind with
    | some (.name _) =>
      bump source
      call.suffixes (← fold .memberAccess next.position)
    | found => throw ⟨member.position, .expectedMember found⟩
  | _ => return e

def arguments (close : Symbol) : Act (List Expr) := do
  if (← peek source).kind = some (.symbol close) then
    bump source
    return []
  else
    call.items close []

def items (close : Symbol) (before : List Expr) : Act (List Expr) := do
  let e ← call.expression
  let next ← peek source
  if next.kind = some (.symbol .comma) then
    bump source
    call.items close (before ++ [e])
  else if next.kind = some (.symbol close) then
    bump source
    return before ++ [e]
  else
    throw ⟨next.position, .expectedCommaOr close next.kind⟩

end Body

section Running

variable (source : Source)

/-- The procedures, with at most `calls` calls inside each other. -/
def procedures (calls : Nat) : Procedures :=
  match calls with
  | 0 => ⟨.stuck, fun _ => .stuck, fun _ _ _ => .stuck, .stuck, .stuck, .stuck, fun _ => .stuck,
      fun _ => .stuck, fun _ => .stuck, fun _ _ => .stuck⟩
  | calls + 1 =>
    let call := procedures calls
    { expression := Body.expression source call
      binary := Body.binary call
      chain := Body.chain source call
      unary := Body.unary source call
      cast := Body.cast source call
      primary := Body.primary source call
      members := Body.members source call
      suffixes := Body.suffixes source call
      arguments := Body.arguments source call
      items := Body.items source call }

/-- A whole text: an expression with nothing behind it. -/
def formula (calls : Nat) : Act Expr := do
  let e ← (procedures source calls).expression
  let next ← peek source
  match next.kind with
  | none => return e
  | some (.symbol .closeParen) => throw ⟨next.position, .unmatched .closeParen⟩
  | some (.symbol .closeBracket) => throw ⟨next.position, .unmatched .closeBracket⟩
  | some found => throw ⟨next.position, .afterExpression found⟩

end Running

end Formula.Cursor
