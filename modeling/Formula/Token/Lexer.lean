import Formula.Text.Blank
import Formula.Token.Numeral
import Formula.Token.Quoted

set_option autoImplicit false

/-! # From text to tokens

`Token.scan` reads the one token at the front of a text and counts its characters; `Token.lex`
repeats it to the end of the text and turns character counts into byte positions. -/

namespace Formula.Token

/-! ## One token -/

/-- The characters that are a token by themselves. -/
def single? (c : Char) : Option Symbol :=
  match c with
  | '(' => some .openParen
  | ')' => some .closeParen
  | '[' => some .openBracket
  | ']' => some .closeBracket
  | ',' => some .comma
  | ':' => some .colon
  | '+' => some .plus
  | '-' => some .minus
  | '*' => some .star
  | '/' => some .slash
  | '%' => some .percent
  | '^' => some .caret
  | '~' => some .tilde
  | _ => none

/-- A symbol that a second character can follow, and the two symbols that it then starts. -/
def pair (rest : List Char) (short : Symbol) (longer : List (Char × Symbol)) : Kind × Nat :=
  match rest.head?.bind (longer.lookup ·) with
  | some long => (.symbol long, 1)
  | none => (.symbol short, 0)

/-- An ASCII letter or `_`. -/
def isNameStart (c : Char) : Bool := c.isAlpha || c == '_'

/-- The name that starts with `c`; an `@` in front of a name does not belong to it. -/
def scanName (c : Char) (rest : List Char) : Except ParseError.Cause (Kind × Nat) :=
  if isNameStart c then
    let tail := rest.takeWhile Numeral.isWordChar
    .ok (.name (String.ofList (c :: tail)), tail.length)
  else if c == '@' then
    match rest with
    | [] => .error (.unexpectedCharacter c)
    | d :: rest =>
      if isNameStart d then
        let tail := rest.takeWhile Numeral.isWordChar
        .ok (.name (String.ofList (d :: tail)), tail.length + 1)
      else
        .error (.unexpectedCharacter d)
  else
    .error (.unexpectedCharacter c)

/-- An error at the start of a token. -/
def atStart {α : Type} (result : Except ParseError.Cause α) : Except Fault α :=
  result.mapError fun cause => ⟨0, cause⟩

/-- A numeric literal that starts with `c`. -/
def scanNumber (c : Char) (rest : List Char) : Except Fault (Kind × Nat) :=
  atStart ((Numeral.scan (c :: rest)).map fun (value, length) => (.number value, length - 1))

/-- The token that starts with `c` and goes on in `rest`, and how many
    characters of `rest` belong to it. -/
def scan (c : Char) (rest : List Char) : Except Fault (Kind × Nat) :=
  match single? c with
  | some symbol => .ok (.symbol symbol, 0)
  | none =>
    match c with
    | '=' =>
      if rest.head? = some '=' then .ok (.symbol .equal, 1) else .error ⟨0, .assignment⟩
    | '!' => .ok (pair rest .bang [('=', .notEqual)])
    | '&' => .ok (pair rest .ampersand [('&', .both)])
    | '|' => .ok (pair rest .bar [('|', .either)])
    | '?' => .ok (pair rest .question [('?', .coalesce)])
    | '<' => .ok (pair rest .less [('=', .lessEqual), ('<', .shiftLeft)])
    | '>' => .ok (pair rest .greater [('=', .greaterEqual), ('>', .shiftRight)])
    | '.' => if rest.head?.any Char.isDigit then scanNumber c rest else .ok (.symbol .dot, 0)
    | '"' =>
      (Quoted.scanString 1 rest).map fun (text, n) => (.string (String.ofList text), n)
    | '\x27' => (Quoted.scanCharacter rest).map fun n => (.character, n)
    | '@' =>
      match rest with
      | '"' :: rest =>
        match Quoted.scanVerbatim rest with
        | some (text, n) => .ok (.string (String.ofList text), n + 1)
        | none => .error ⟨0, .unterminatedString⟩
      | _ => atStart (scanName c rest)
    | _ => if c.isDigit then scanNumber c rest else atStart (scanName c rest)

/-! ## All tokens -/

/-- The number of bytes of a text. -/
def byteLength : List Char → Nat
  | [] => 0
  | c :: rest => c.utf8Size + byteLength rest

/-- The tokens of a text whose first character is at byte `position`. -/
def lex (position : Nat) : List Char → Except ParseError (List Token)
  | [] => .ok []
  | c :: rest =>
    if isBlank c then
      lex (position + c.utf8Size) rest
    else
      match scan c rest with
      | .error fault => .error ⟨position + fault.offset, fault.cause⟩
      | .ok (kind, n) =>
        match lex (position + byteLength (c :: rest.take n)) (rest.drop n) with
        | .error e => .error e
        | .ok tokens => .ok (⟨kind, position⟩ :: tokens)
  termination_by text => text.length
  decreasing_by all_goals grind

/-- The tokens of a text. -/
def tokenize (text : String) : Except ParseError (List Token) := lex 0 text.toList

end Formula.Token
