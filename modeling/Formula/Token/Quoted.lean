import Formula.ParseError

set_option autoImplicit false

/-! # Quoted literals

A string stands between quotes on one line, with backslash escapes. A verbatim string, marked with
`@`, runs over lines and has no escapes; a quote inside it is written twice. A character literal
stands between apostrophes; its character is not kept.

Each function here starts behind the opening quote and answers with the number of characters that
the literal takes from there, its closing quote included. -/

namespace Formula

/-- An error inside a token: its cause and how many bytes behind the token's
    start it is reported. -/
structure Token.Fault where
  offset : Nat
  cause : ParseError.Cause
  deriving DecidableEq

namespace Quoted

/-- The character that a backslash and `c` stand for. -/
def escape? (c : Char) : Option Char :=
  match c with
  | '"' => some '"'
  | '\x27' => some '\x27'
  | '\\' => some '\\'
  | '0' => some '\x00'
  | 'n' => some '\n'
  | 'r' => some '\r'
  | 't' => some '\t'
  | _ => none

/-- The text of a string, and its length. The first character is `offset` bytes
    behind the start of the token. -/
def scanString (offset : Nat) : List Char → Except Token.Fault (List Char × Nat)
  | [] => .error ⟨0, .unterminatedString⟩
  | c :: rest =>
    if c == '"' then .ok ([], 1)
    else if c == '\n' then .error ⟨0, .unterminatedString⟩
    else if c == '\\' then
      match rest with
      | [] => .error ⟨offset, .invalidEscape⟩
      | e :: rest =>
        match escape? e with
        | none => .error ⟨offset, .invalidEscape⟩
        | some c =>
          match scanString (offset + 2) rest with
          | .error fault => .error fault
          | .ok (text, n) => .ok (c :: text, n + 2)
    else
      match scanString (offset + c.utf8Size) rest with
      | .error fault => .error fault
      | .ok (text, n) => .ok (c :: text, n + 1)

/-- The text of a verbatim string, and its length; `none` if it does not end. -/
def scanVerbatim : List Char → Option (List Char × Nat)
  | [] => none
  | '"' :: '"' :: rest => (scanVerbatim rest).map fun (text, n) => ('"' :: text, n + 2)
  | c :: rest =>
    if c == '"' then some ([], 1)
    else (scanVerbatim rest).map fun (text, n) => (c :: text, n + 1)

/-- The closing apostrophe of a character literal after `n` characters. -/
def closeCharacter (n : Nat) (rest : List Char) : Except Token.Fault Nat :=
  if rest.head? = some '\x27' then .ok (n + 1) else .error ⟨0, .unterminatedCharacter⟩

/-- The length of a character literal. -/
def scanCharacter : List Char → Except Token.Fault Nat
  | [] => .error ⟨0, .emptyCharacter⟩
  | c :: rest =>
    if c == '\\' then
      match rest with
      | [] => .error ⟨1, .invalidEscape⟩
      | e :: rest =>
        if (escape? e).isSome then closeCharacter 2 rest else .error ⟨1, .invalidEscape⟩
    else if c == '\x27' || c == '\n' then .error ⟨0, .emptyCharacter⟩
    else closeCharacter 1 rest

end Quoted

end Formula
