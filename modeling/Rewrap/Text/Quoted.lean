import Rewrap.Text.Printable

/-! # Quoted text

Text in double quotes for messages. Quotes, backslashes, the common control characters and every
character that is not printable are written as escapes. -/

namespace Rewrap.Quoted

/-- The code point in hexadecimal, lower case and without leading zeros. -/
def hex (c : Char) : List Char := Nat.toDigits 16 c.toNat

/-- How one character is written between the quotes. -/
def escape (c : Char) : List Char :=
  match c with
  | '"' => ['\\', '"']
  | '\\' => ['\\', '\\']
  | '\t' => ['\\', 't']
  | '\r' => ['\\', 'r']
  | '\n' => ['\\', 'n']
  | '\x00' => ['\\', '0']
  | c => if isPrintable c then [c] else ['\\', 'u', '\x7b'] ++ hex c ++ ['\x7d']

/-- The text in quotes. -/
def quote (s : String) : String := String.ofList ('"' :: s.toList.flatMap escape ++ ['"'])

end Rewrap.Quoted
