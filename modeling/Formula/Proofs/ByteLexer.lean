import Formula.Proofs.Bytes

set_option autoImplicit false

/-! # Tokens byte by byte

A lexer that keeps a place in the text and looks at single bytes, up to three of them ahead.
It cuts a piece out of the text where it needs one: a numeral, a name, a stretch of a string.
Such a piece must not begin or end inside a character, although the lexer steps over the bytes
of a character one at a time.

It has the same tokens and the same errors as the lexer that goes by characters, for every text; so
all its cuts are between characters, and every token takes at least one byte. -/

namespace Formula.Bytes

open Token (Kind byteLength)

/-! ## The lexer -/

/-- What comes of reading bytes; `none` where a cut goes through a character, or the
    lexer stays at its place. -/
abbrev Reading (α : Type) : Type := ExceptT ParseError Option α

namespace Reading

variable {α β : Type} (f : α → Reading β)

/-- The reading that comes to an end with this result. -/
def done (result : Except ParseError α) : Reading α := some result

theorem done_ok_bind (a : α) : done (.ok a) >>= f = f a := rfl

theorem lift_bind (a : α) : (liftM (some a) : Reading α) >>= f = f a := rfl

end Reading

/-- The end of the run of bytes of a class that starts at a place. -/
def runEnd (text : String) (p : Char → Bool) (i : Nat) : Nat :=
  if h : (peek text i).any p then runEnd text p (i + 1) else i
  termination_by text.utf8ByteSize - i
  decreasing_by
    have := lt_of_any_peek h
    omega

theorem le_runEnd (text : String) (p : Char → Bool) (i : Nat) : i ≤ runEnd text p i := by
  fun_induction runEnd text p i with
  | case1 i h ih => exact Nat.le_of_succ_le ih
  | case2 i h => exact Nat.le_refl i

/-! ### Numbers -/

/-- The end of the point and the digits behind it. -/
def pointEnd (text : String) (i : Nat) : Nat :=
  if peek text i = some '.' ∧ (peek text (i + 1)).any Char.isDigit then
    runEnd text Char.isDigit (i + 1)
  else
    i

/-- A plus or a minus. -/
def isSign (c : Char) : Bool := c == '+' || c == '-'

/-- The end of the exponent mark, the sign and the digits behind it. -/
def exponentEnd (text : String) (i : Nat) : Nat :=
  if (peek text i).any Decimal.isExponentMark then
    let sign := if (peek text (i + 1)).any isSign then 1 else 0
    if (peek text (i + 1 + sign)).any Char.isDigit then
      runEnd text Char.isDigit (i + 1 + sign)
    else i
  else
    i

/-- The end of a decimal numeral. -/
def numeralEnd (text : String) (i : Nat) : Nat :=
  exponentEnd text (pointEnd text (runEnd text Char.isDigit i))

/-- The end of the literal whose numeral goes from `start` to `stop`. -/
def literalEnd (text : String) (start stop : Nat) : Reading Nat := do
  let next := if (peek text stop).any Numeral.isSuffix then stop + 1 else stop
  if (peek text next).any Numeral.isWordChar then
    let word ← slice? text start (runEnd text (fun c => Numeral.isWordChar c || c == '.') next)
    throw ⟨start, .invalidNumber word⟩
  else
    return next

/-- A decimal literal, and the place behind it. -/
def decimal (text : String) (start : Nat) : Reading (Kind × Nat) := do
  let stop := numeralEnd text start
  let next ← literalEnd text start stop
  let numeral ← slice? text start stop
  match Decimal.readChars? numeral.toList with
  | some value => return (.number value, next)
  | none => throw ⟨start, .numberOutOfRange numeral⟩

/-- A hexadecimal literal, and the place behind it. -/
def hexadecimal (text : String) (start : Nat) : Reading (Kind × Nat) := do
  let stop := runEnd text Numeral.isHexDigit (start + 2)
  let digits ← slice? text (start + 2) stop
  if digits.isEmpty then throw ⟨start, .hexWithoutDigits⟩
  let next ← literalEnd text start stop
  let n := Numeral.ofHexDigits digits.toList
  if h : n < 18446744073709551616 then return (.number (Decimal.ofWord n h), next)
  else throw ⟨start, .hexTooLarge⟩

/-- A numeric literal, and the place behind it. -/
def number (text : String) (start : Nat) : Reading (Kind × Nat) :=
  if peek text start = some '0' ∧ (peek text (start + 1)).any (fun c => c == 'x' || c == 'X') then
    hexadecimal text start
  else
    decimal text start

/-! ### Quotes -/

/-- What a backslash at a place and the byte behind it stand for. -/
def escape (text : String) (i : Nat) : Reading Char :=
  match (peek text (i + 1)).bind Quoted.escape? with
  | some c => return c
  | none => throw ⟨i, .invalidEscape⟩

/-- The string that goes on at `i`, and the place behind it: `read` and what
    stands from `open` on. -/
def string (text : String) (start opened i : Nat) (read : String) : Reading (Kind × Nat) :=
  match h : peek text i with
  | none => throw ⟨start, .unterminatedString⟩
  | some c =>
    if c == '\n' then throw ⟨start, .unterminatedString⟩
    else if c == '"' then do
      let piece ← slice? text opened i
      return (.string (read ++ piece), i + 1)
    else if c == '\\' then do
      let piece ← slice? text opened i
      let escaped ← escape text i
      string text start (i + 2) (i + 2) ((read ++ piece).push escaped)
    else
      string text start opened (i + 1) read
  termination_by text.utf8ByteSize - i
  decreasing_by
    all_goals
      have := lt_of_peek_eq_some h
      omega

/-- The verbatim string that goes on at `i`, and the place behind it. -/
def verbatim (text : String) (start opened i : Nat) (read : String) : Reading (Kind × Nat) :=
  match h : peek text i with
  | none => throw ⟨start, .unterminatedString⟩
  | some c =>
    if c == '"' then
      if peek text (i + 1) = some '"' then do
        let piece ← slice? text opened (i + 1)
        verbatim text start (i + 2) (i + 2) (read ++ piece)
      else do
        let piece ← slice? text opened i
        return (.string (read ++ piece), i + 1)
    else
      verbatim text start opened (i + 1) read
  termination_by text.utf8ByteSize - i
  decreasing_by
    all_goals
      have := lt_of_peek_eq_some h
      omega

/-- The place behind the character of a character literal. -/
def characterEnd (text : String) (start : Nat) : Reading Nat :=
  match peek text (start + 1) with
  | none => throw ⟨start, .emptyCharacter⟩
  | some c =>
    if c == '\\' then do
      let _ ← escape text (start + 1)
      return start + 3
    else if c == '\x27' || c == '\n' then throw ⟨start, .emptyCharacter⟩
    else do
      let rest ← slice? text (start + 1) text.utf8ByteSize
      return start + 1 + (rest.toList.head?.map Char.utf8Size).getD 1

/-- A character literal, and the place behind it. -/
def character (text : String) (start : Nat) : Reading (Kind × Nat) := do
  let stop ← characterEnd text start
  if peek text stop = some '\x27' then return (.character, stop + 1)
  else throw ⟨start, .unterminatedCharacter⟩

/-! ### Tokens -/

/-- The name from `first` on, and the place behind it. -/
def nameFrom (text : String) (start first : Nat) : Reading (Kind × Nat) := do
  let stop :=
    if (peek text first).any Token.isNameStart then runEnd text Numeral.isWordChar first else first
  if stop = first then
    let rest ← slice? text first text.utf8ByteSize
    throw ⟨start, .unexpectedCharacter (rest.toList.head?.getD '@')⟩
  else
    let name ← slice? text first stop
    return (.name name, stop)

/-- A name, with or without an `@` in front, and the place behind it. -/
def name (text : String) (start : Nat) : Reading (Kind × Nat) :=
  nameFrom text start (if peek text start = some '@' then start + 1 else start)

/-- A symbol that a second byte can follow, and the place behind it. -/
def pair (text : String) (start : Nat) (short : Symbol) (longer : List (Char × Symbol)) :
    Kind × Nat :=
  match (peek text (start + 1)).bind (longer.lookup ·) with
  | some long => (.symbol long, start + 2)
  | none => (.symbol short, start + 1)

/-- The token whose first byte is `c`, and the place behind it. -/
def token (text : String) (start : Nat) (c : Char) : Reading (Kind × Nat) :=
  match Token.single? c with
  | some symbol => return (.symbol symbol, start + 1)
  | none =>
    match c with
    | '=' =>
      if peek text (start + 1) = some '=' then return (.symbol .equal, start + 2)
      else throw ⟨start, .assignment⟩
    | '!' => return pair text start .bang [('=', .notEqual)]
    | '&' => return pair text start .ampersand [('&', .both)]
    | '|' => return pair text start .bar [('|', .either)]
    | '?' => return pair text start .question [('?', .coalesce)]
    | '<' => return pair text start .less [('=', .lessEqual), ('<', .shiftLeft)]
    | '>' => return pair text start .greater [('=', .greaterEqual), ('>', .shiftRight)]
    | '.' =>
      if (peek text (start + 1)).any Char.isDigit then number text start
      else return (.symbol .dot, start + 1)
    | '"' => string text start (start + 1) (start + 1) ""
    | '\x27' => character text start
    | '@' =>
      if peek text (start + 1) = some '"' then verbatim text start (start + 2) (start + 2) ""
      else name text start
    | _ => if c.isDigit then number text start else name text start

/-! ### All tokens -/

/-- A token, or the end of the text, with its place. -/
structure Lexeme where
  kind : Option Kind
  position : Nat
  deriving DecidableEq

/-- What is left of the text from a place on: its tokens and its end. -/
def lexemesFrom (text : String) (i : Nat) : Reading (List Lexeme) :=
  match _h : peek text (runEnd text isBlank i) with
  | none => return [⟨none, runEnd text isBlank i⟩]
  | some c => do
    let (kind, next) ← token text (runEnd text isBlank i) c
    if _hnext : runEnd text isBlank i < next then
      let others ← lexemesFrom text next
      return ⟨some kind, runEnd text isBlank i⟩ :: others
    else
      ExceptT.lift none
  termination_by text.utf8ByteSize - i
  decreasing_by
    have := le_runEnd text isBlank i
    have := lt_of_peek_eq_some _h
    omega

/-- The tokens of a text and its end. -/
def lexemes (text : String) : Reading (List Lexeme) := lexemesFrom text 0

end Formula.Bytes
