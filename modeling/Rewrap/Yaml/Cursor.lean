import Rewrap.Text.Basic

/-! # Reading places of a YAML text

A cursor is a place in a text together with its line and column, on which the meaning of a block
depends. A line break is a carriage return, a line feed, both together, or one of the Unicode
separators; the separators keep their spelling, and every other break is read as a line feed. -/

namespace Rewrap.Yaml

/-- A place in a text: what is left to read, the number of characters read, the line and the
column. -/
structure Cursor where
  rest : Text
  index : Nat := 0
  line : Nat := 0
  column : Nat := 0

/-! ## Characters -/

def isBreak (c : Char) : Bool :=
  c == '\n' || c == '\r' || c == '\u0085' || c == '\u2028' || c == '\u2029'

def isBreakOrEnd (c : Option Char) : Bool := c.all isBreak

/-- A blank, a line break or the end. -/
def isGap (c : Option Char) : Bool := c.all fun c => Text.isBlank c || isBreak c

/-- A letter, digit, underscore or dash: what names of anchors and tag handles are made of. -/
def isNameChar (c : Char) : Bool := c.isAlphanum || c == '_' || c == '-'

/-- Whether a text may hold the character at all. -/
def isAllowed (c : Char) : Bool :=
  let n := c.toNat
  n == 0x9 || n == 0xA || n == 0xD || (0x20 ≤ n && n ≤ 0x7E) || n == 0x85
    || (0xA0 ≤ n && n ≤ 0xD7FF) || (0xE000 ≤ n && n ≤ 0xFFFD) || 0x10000 ≤ n

def hexValue? (c : Char) : Option Nat :=
  if c.isDigit then some (c.toNat - '0'.toNat)
  else if 'a' ≤ c && c ≤ 'f' then some (c.toNat - 'a'.toNat + 10)
  else if 'A' ≤ c && c ≤ 'F' then some (c.toNat - 'A'.toNat + 10)
  else none

/-- The number that hexadecimal digits stand for. -/
def hexNumber? (digits : Text) : Option Nat :=
  digits.foldlM (fun n c => (hexValue? c).map (16 * n + ·)) 0

/-- The number that decimal digits stand for. -/
def decimal (digits : Text) : Nat := digits.foldl (fun n c => 10 * n + (c.toNat - '0'.toNat)) 0

namespace Cursor

/-! ## Moving -/

def peek (c : Cursor) : Option Char := c.rest.head?

def peekAt (c : Cursor) (n : Nat) : Option Char := c.rest[n]?

/-- Whether the given characters come next. -/
def startsWith (c : Cursor) (w : Text) : Bool := w.isPrefixOf c.rest

/-- Passes `n` characters, none of which is a line break. -/
def skip (c : Cursor) (n : Nat) : Cursor :=
  { c with rest := c.rest.drop n, index := c.index + n, column := c.column + n }

/-- The characters up to the first that fails the test, and the place of that. -/
def span (c : Cursor) (p : Char → Bool) : Text × Cursor :=
  let taken := c.rest.takeWhile p
  (taken, c.skip taken.length)

/-- Passes the characters up to the first that fails the test. -/
def skipWhile (c : Cursor) (p : Char → Bool) : Cursor := (c.span p).2

/-- The line break that comes next, as it is read, and the start of the next line. -/
def lineBreak (c : Cursor) : Text × Cursor :=
  match c.rest with
  | '\r' :: '\n' :: rest => (['\n'], ⟨rest, c.index + 2, c.line + 1, 0⟩)
  | d :: rest =>
      if d == '\u2028' || d == '\u2029' then ([d], ⟨rest, c.index + 1, c.line + 1, 0⟩)
      else if isBreak d then (['\n'], ⟨rest, c.index + 1, c.line + 1, 0⟩)
      else ([], c)
  | [] => ([], c)

/-- Passes blanks and a comment, and then a line break or the end, if that is all that is left on
the line. -/
def endLine? (c : Cursor) : Option Cursor :=
  let c := c.skipWhile Text.isBlank
  let c := if c.peek == some '#' then c.skipWhile (!isBreak ·) else c
  if isBreakOrEnd c.peek then some c.lineBreak.2 else none

/-- Whether a document marker of three equal characters stands here at the start of a line. -/
def isMarker (c : Cursor) (d : Char) : Bool :=
  c.column == 0 && c.startsWith [d, d, d] && isGap (c.peekAt 3)

/-- Whether a document begins or ends here. -/
def isDocumentBoundary (c : Cursor) : Bool := c.isMarker '-' || c.isMarker '.'

end Cursor

end Rewrap.Yaml
