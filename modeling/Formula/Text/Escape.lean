import Formula.Text.Visible

set_option autoImplicit false

/-! # Quoted text

How a name is shown where it must be told apart from what stands around it: in quotes, with a
backslash in front of quotes and backslashes and with the characters that would not show
written by name or number. -/

namespace Formula

/-- The character as it stands between quotes. Quotes and backslashes get a backslash in front; of
    the others, those that are not visible are written by a letter or by number. -/
def escapeChar (c : Char) : List Char :=
  if c == '"' || c == '\\' then ['\\', c]
  else if c == '\x00' then ['\\', '0']
  else if c == '\t' then ['\\', 't']
  else if c == '\n' then ['\\', 'n']
  else if c == '\r' then ['\\', 'r']
  else if isVisible c then [c]
  else "\\u\x7b".toList ++ Nat.toDigits 16 c.toNat ++ "\x7d".toList

/-- The text in quotes. -/
def quoteText (text : String) : String :=
  "\"" ++ String.ofList (text.toList.flatMap escapeChar) ++ "\""

end Formula
