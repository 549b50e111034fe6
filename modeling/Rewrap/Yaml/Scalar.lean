import Rewrap.Yaml.Cursor

/-! # Scalars

The four ways to write a YAML scalar: plain, in single quotes, in double quotes, and as an indented
block. In the first three a line break counts as a space unless empty lines follow it. -/

namespace Rewrap.Yaml

/-! ## Gaps between words -/

/-- Blanks and line breaks between words: the blanks before the first break, that break, and the
breaks after it. -/
structure Gap where
  blanks : Text := []
  broken : Bool := false
  firstBreak : Text := []
  moreBreaks : Text := []

namespace Gap

/-- What the gap contributes to the scalar. -/
def folded (g : Gap) : Text :=
  if !g.broken then g.blanks
  else if g.firstBreak.head? == some '\n' then
    if g.moreBreaks.isEmpty then [' '] else g.moreBreaks
  else g.firstBreak ++ g.moreBreaks

/-- Reads a gap of at most `n` characters, of which `g` is known. A tab may not stand in the
indentation of a continued line, which is everything left of column `indent`. -/
def read (indent : Nat) : Nat → Gap → Cursor → Option (Gap × Cursor)
  | 0, g, c => some (g, c)
  | n + 1, g, c =>
      match c.peek with
      | none => some (g, c)
      | some d =>
          if Text.isBlank d then
            if g.broken && c.column < indent && d == '\t' then none
            else if g.broken then read indent n g (c.skip 1)
            else read indent n { g with blanks := g.blanks ++ [d] } (c.skip 1)
          else if isBreak d then
            let (br, c) := c.lineBreak
            if g.broken then read indent n { g with moreBreaks := g.moreBreaks ++ br } c
            else read indent n { g with broken := true, firstBreak := br } c
          else some (g, c)

end Gap

/-! ## Quoted scalars -/

/-- What an escape of a single character stands for. -/
def escapeOf? : Char → Option Char
  | '0' => some '\x00'
  | 'a' => some '\x07'
  | 'b' => some '\x08'
  | 't' | '\t' => some '\t'
  | 'n' => some '\n'
  | 'v' => some '\x0b'
  | 'f' => some '\x0c'
  | 'r' => some '\r'
  | 'e' => some '\x1b'
  | ' ' => some ' '
  | '"' => some '"'
  | '/' => some '/'
  | '\\' => some '\\'
  | 'N' => some '\u0085'
  | '_' => some '\u00a0'
  | 'L' => some '\u2028'
  | 'P' => some '\u2029'
  | _ => none

/-- How many hexadecimal digits follow an escape that names a character by its number. -/
def escapeDigits? : Char → Option Nat
  | 'x' => some 2
  | 'u' => some 4
  | 'U' => some 8
  | _ => none

/-- The character of an escape, which starts with a backslash here, and the place after it. -/
def readEscape (c : Cursor) : Option (Char × Cursor) := do
  let d ← c.peekAt 1
  match escapeDigits? d with
  | none => return (← escapeOf? d, c.skip 2)
  | some n =>
      let digits := (c.rest.drop 2).take n
      let code ← if digits.length == n then hexNumber? digits else none
      if code.isValidChar then return (.ofNat code, c.skip (2 + n)) else none

/-- Reads a word of a quoted scalar, which has no blanks and no line breaks but those written as
escapes. An escaped line break ends the word; the flag says whether there was one. -/
def readQuotedWord (quote : Char) : Nat → Text → Cursor → Option (Text × Bool × Cursor)
  | 0, word, c => some (word, false, c)
  | n + 1, word, c =>
      match c.rest with
      | [] => some (word, false, c)
      | d :: rest =>
          if Text.isBlank d || isBreak d then some (word, false, c)
          else if d == quote then
            if quote == '\'' && rest.head? == some '\'' then
              readQuotedWord quote n (word ++ ['\'']) (c.skip 2)
            else some (word, false, c)
          else if d == '\\' && quote == '"' then
            if rest.head?.any isBreak then some (word, true, (c.skip 1).lineBreak.2)
            else
              match readEscape c with
              | some (e, c) => readQuotedWord quote n (word ++ [e]) c
              | none => none
          else readQuotedWord quote n (word ++ [d]) (c.skip 1)

/-- Reads words and gaps up to the closing quote, at most `n` of each. -/
def readQuotedFrom (quote : Char) : Nat → Text → Cursor → Option (Text × Cursor)
  | 0, _, _ => none
  | n + 1, done, c => do
      if c.isDocumentBoundary || c.rest.isEmpty then none
      else
        let (word, escaped, c) ← readQuotedWord quote c.rest.length [] c
        if c.peek == some quote then return (done ++ word, c.skip 1)
        else
          let (gap, c) ← Gap.read 0 c.rest.length { broken := escaped } c
          readQuotedFrom quote n (done ++ word ++ gap.folded) c

/-- Reads a scalar in single or double quotes, the first of which comes next. -/
def readQuoted (quote : Char) (c : Cursor) : Option (Text × Cursor) :=
  readQuotedFrom quote c.rest.length [] (c.skip 1)

/-! ## Plain scalars -/

/-- The characters that separate the parts of a flow collection. -/
def isFlowIndicator (c : Char) : Bool :=
  c == ',' || c == '[' || c == ']' || c == '{' || c == '}'

/-- Reads a word of a plain scalar. In a flow collection a colon may not stand right before an
indicator. -/
def readPlainWord (inFlow : Bool) : Nat → Text → Cursor → Option (Text × Cursor)
  | 0, word, c => some (word, c)
  | n + 1, word, c =>
      match c.rest with
      | [] => some (word, c)
      | d :: rest =>
          if Text.isBlank d || isBreak d then some (word, c)
          else if d == ':' && inFlow && rest.head?.any (fun e => isFlowIndicator e || e == '?')
            then none
          else if d == ':' && isGap rest.head? then some (word, c)
          else if inFlow && isFlowIndicator d then some (word, c)
          else readPlainWord inFlow n (word ++ [d]) (c.skip 1)

/-- Reads words and gaps of a plain scalar, at most `n` of each, after the part `done` and the gap
that follows it. The last gap does not belong to the scalar; the flag says whether a line ended in
it. -/
def readPlainFrom (inFlow : Bool) (indent : Nat) :
    Nat → Text → Gap → Cursor → Option (Text × Bool × Cursor)
  | 0, done, gap, c => some (done, gap.broken, c)
  | n + 1, done, gap, c => do
      if c.isDocumentBoundary || c.peek == some '#' then return (done, gap.broken, c)
      else
        let (word, c) ← readPlainWord inFlow c.rest.length [] c
        let done := if word.isEmpty then done else done ++ gap.folded ++ word
        let gap := if word.isEmpty then gap else {}
        if isGap c.peek && !c.rest.isEmpty then
          let (gap, c) ← Gap.read indent c.rest.length gap c
          if !inFlow && c.column < indent then return (done, gap.broken, c)
          else readPlainFrom inFlow indent n done gap c
        else return (done, gap.broken, c)

/-- Reads a plain scalar. Outside flow collections its lines are indented by at least `indent`. -/
def readPlain (inFlow : Bool) (indent : Nat) (c : Cursor) : Option (Text × Bool × Cursor) :=
  readPlainFrom inFlow indent (c.rest.length + 1) [] {} c

/-! ## Block scalars -/

/-- What happens to the line breaks at the end of a block scalar. -/
inductive Chomping where
  | strip
  | clip
  | keep
deriving DecidableEq

/-- The chomping that an indicator asks for. -/
def chompingOf? : Option Char → Option Chomping
  | some '-' => some .strip
  | some '+' => some .keep
  | _ => none

/-- The indentation that a digit asks for, if the character is one; zero is refused. -/
def indentOf (c : Cursor) : Option (Nat × Cursor) :=
  match c.peek with
  | some d =>
      if !d.isDigit then some (0, c)
      else if d == '0' then none
      else some (d.toNat - '0'.toNat, c.skip 1)
  | none => some (0, c)

/-- Reads the indicators of a block scalar in either order. -/
def readBlockHeader (c : Cursor) : Option (Chomping × Nat × Cursor) :=
  match chompingOf? c.peek with
  | some chomping => do
      let (increment, c) ← indentOf (c.skip 1)
      return (chomping, increment, c)
  | none => do
      let (increment, c) ← indentOf c
      match increment, chompingOf? c.peek with
      | _ + 1, some chomping => return (chomping, increment, c.skip 1)
      | _, _ => return (.clip, increment, c)

/-- Passes empty lines and the indentation of the next line, at most `n` lines. An `indent` of zero
is not known yet. Also gives the breaks passed and the greatest column reached. -/
def readEmptyLines (indent : Nat) :
    Nat → Text → Nat → Cursor → Option (Text × Nat × Cursor)
  | 0, breaks, widest, c => some (breaks, widest, c)
  | n + 1, breaks, widest, c =>
      let spaces := (c.rest.takeWhile (· == ' ')).length
      let c := c.skip (if indent == 0 then spaces else min spaces (indent - c.column))
      let widest := max widest c.column
      if (indent == 0 || c.column < indent) && c.peek == some '\t' then none
      else if c.peek.any isBreak then
        let (br, c) := c.lineBreak
        readEmptyLines indent n (breaks ++ br) widest c
      else some (breaks, widest, c)

/-- Reads the lines of a block scalar, at most `n` of them. `brk` is the break that ended the line
before and `breaks` are the empty lines after it; a line that starts with a blank is not folded. -/
def readBlockLines (literal : Bool) (indent : Nat) :
    Nat → Text → Text → Text → Bool → Cursor → Option (Text × Text × Text × Cursor)
  | 0, done, brk, breaks, _, c => some (done, brk, breaks, c)
  | n + 1, done, brk, breaks, afterBlank, c => do
      if c.column != indent || c.rest.isEmpty then return (done, brk, breaks, c)
      else
        let startsBlank := c.peek.any Text.isBlank
        let joint :=
          if !literal && brk.head? == some '\n' && !afterBlank && !startsBlank then
            if breaks.isEmpty then [' '] else []
          else brk
        let (line, c) := c.span (!isBreak ·)
        let (brk, c) := c.lineBreak
        let done := done ++ joint ++ breaks ++ line
        let (breaks, _, c) ← readEmptyLines indent (c.rest.length + 1) [] 0 c
        readBlockLines literal indent n done brk breaks startsBlank c

/-- Reads a block scalar, whose indicator comes next, inside a block indented by `outer`, which is
-1 outside all blocks. -/
def readBlock (literal : Bool) (outer : Int) (c : Cursor) : Option (Text × Cursor) := do
  let (chomping, increment, c) ← readBlockHeader (c.skip 1)
  let c ← c.endLine?
  let indent := if increment == 0 then 0 else outer.toNat + increment
  let (breaks, widest, c) ← readEmptyLines indent (c.rest.length + 1) [] 0 c
  let indent := if indent == 0 then max (max widest (outer + 1).toNat) 1 else indent
  let (done, brk, breaks, c) ←
    readBlockLines literal indent (c.rest.length + 1) [] [] breaks false c
  match chomping with
  | .strip => return (done, c)
  | .clip => return (done ++ brk, c)
  | .keep => return (done ++ brk ++ breaks, c)

end Rewrap.Yaml
