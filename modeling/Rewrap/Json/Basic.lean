import Rewrap.Text.Basic

/-! # JSON values

A value as it was written: numbers and strings keep their spelling. What stands in a text is read as
far as it makes sense, and `malformed` marks the place from which on it does not. -/

namespace Rewrap

/-- A JSON value. -/
inductive Json where
  | null
  | bool (b : Bool)
  | number (written : Text)
  | string (written : Text)
  | array (items : List Json)
  | object (fields : List (Text × Json))
  | malformed

instance : Inhabited Json := ⟨.null⟩

namespace Json

/-- Whether no part of the value is malformed. -/
def isWhole : Json → Bool
  | .malformed => false
  | .array items => wholeItems items
  | .object fields => wholeFields fields
  | _ => true
where
  wholeItems : List Json → Bool
    | [] => true
    | j :: js => j.isWhole && wholeItems js
  wholeFields : List (Text × Json) → Bool
    | [] => true
    | (_, j) :: fs => j.isWhole && wholeFields fs

/-! ## Strings -/

/-- A hexadecimal digit, in lower case. -/
def hexDigit (n : Nat) : Char := Nat.digitChar n

def hexValue? (c : Char) : Option Nat :=
  if c.isDigit then some (c.toNat - '0'.toNat)
  else if 'a' ≤ c && c ≤ 'f' then some (c.toNat - 'a'.toNat + 10)
  else if 'A' ≤ c && c ≤ 'F' then some (c.toNat - 'A'.toNat + 10)
  else none

/-- The number that four hexadecimal digits stand for, and what follows them. -/
def hexCode? : Text → Option (Nat × Text)
  | a :: b :: c :: d :: t => do
      return (((← hexValue? a) * 16 + (← hexValue? b)) * 256
        + (← hexValue? c) * 16 + (← hexValue? d), t)
  | _ => none

/-- How a character is written in a string. -/
def escape (c : Char) : Text :=
  match c with
  | '"' => ['\\', '"']
  | '\\' => ['\\', '\\']
  | '\x08' => ['\\', 'b']
  | '\x0c' => ['\\', 'f']
  | '\n' => ['\\', 'n']
  | '\r' => ['\\', 'r']
  | '\t' => ['\\', 't']
  | c =>
      if c.toNat < 0x20 then ['\\', 'u', '0', '0', hexDigit (c.toNat / 16), hexDigit (c.toNat % 16)]
      else [c]

/-- The string value for some text. -/
def ofString (s : String) : Json := .string (s.toList.flatMap escape)

/-- What an escape of a single character stands for. -/
def escapeOf? : Char → Option Char
  | '"' => some '"'
  | '\\' => some '\\'
  | '/' => some '/'
  | 'b' => some '\x08'
  | 'f' => some '\x0c'
  | 'n' => some '\n'
  | 'r' => some '\r'
  | 't' => some '\t'
  | _ => none

/-- A half of a pair of code units; `high` comes first. -/
def isSurrogate (high : Bool) (n : Nat) : Bool :=
  if high then 0xD800 ≤ n && n < 0xDC00 else 0xDC00 ≤ n && n < 0xE000

/-- The text that a written string stands for. A code unit that is half of a pair needs the other
half after it. -/
def unescape? : Nat → Text → Option Text
  | 0, _ => none
  | _ + 1, [] => some []
  | n + 1, '\\' :: 'u' :: t => do
      let (code, t) ← hexCode? t
      if isSurrogate true code then
        match t with
        | '\\' :: 'u' :: t =>
            let (low, t) ← hexCode? t
            if isSurrogate false low then
              let code := 0x10000 + (code - 0xD800) * 0x400 + (low - 0xDC00)
              return .ofNat code :: (← unescape? n t)
            else none
        | _ => none
      else if isSurrogate false code then none
      else return .ofNat code :: (← unescape? n t)
  | n + 1, '\\' :: c :: t => do return (← escapeOf? c) :: (← unescape? n t)
  | n + 1, c :: t => do return c :: (← unescape? n t)

/-- The text of a written string. -/
def textOf? (written : Text) : Option String :=
  (unescape? (written.length + 1) written).map String.ofList

end Json

end Rewrap
