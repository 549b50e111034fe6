import Rewrap.Yaml.Scalar

/-! # Tokens

The tokens of a YAML text: its indicators, its scalars, and the beginnings and ends of its blocks,
which are read off the indentation. What turns out to be a key only when a colon follows it gets its
token in front of it afterwards. -/

namespace Rewrap.Yaml

/-- A token. Of a tag only its handle is kept. -/
inductive Token where
  | version (major minor : Nat)
  | tagHandle (handle : Text)
  | documentStart
  | documentEnd
  | flowSequenceStart
  | flowSequenceEnd
  | flowMappingStart
  | flowMappingEnd
  | blockSequenceStart
  | blockMappingStart
  | blockEnd
  | flowEntry
  | blockEntry
  | key
  | value
  | alias (name : Text)
  | anchor (name : Text)
  | tag (handle : Text)
  | scalar (text : Text) (plain : Bool)
deriving DecidableEq

/-- What may become a key: the number of tokens before it, its place, and whether it must become one
because it stands where the keys of its block stand. -/
structure PossibleKey where
  tokensBefore : Nat
  index : Nat
  line : Nat
  column : Nat
  required : Bool

/-- How far a text has been cut into tokens. Tokens are listed from the last to the first. There is
a possible key for every open flow collection and one for what is outside them. -/
structure Scan where
  cursor : Cursor
  tokens : List Token := []
  indent : Int := -1
  outerIndents : List Int := []
  keyAllowed : Bool := true
  possibleKey : Option PossibleKey := none
  outerKeys : List (Option PossibleKey) := []

namespace Scan

def inFlow (s : Scan) : Bool := !s.outerKeys.isEmpty

/-- Adds a token, and goes on at the given place. -/
def emit (s : Scan) (t : Token) (c : Cursor) : Scan :=
  { s with tokens := t :: s.tokens, cursor := c }

/-- Adds a token that takes `n` characters. -/
def emitSkip (s : Scan) (t : Token) (n : Nat) : Scan := s.emit t (s.cursor.skip n)

/-- Adds a token where `n` tokens come before it. -/
def insertAt (s : Scan) (n : Nat) (t : Token) : Scan :=
  let later := s.tokens.length - n
  { s with tokens := s.tokens.take later ++ t :: s.tokens.drop later }

/-! ## Possible keys -/

/-- Gives up the possible key, which is a fault if it had to become one. -/
def dropKey? (s : Scan) : Option Scan :=
  if s.possibleKey.any (·.required) then none else some { s with possibleKey := none }

/-- Notes that a key may start here. -/
def saveKey? (s : Scan) : Option Scan := do
  if s.keyAllowed then
    let c := s.cursor
    let required := !s.inFlow && s.indent == c.column
    return { ← s.dropKey? with
      possibleKey := some ⟨s.tokens.length, c.index, c.line, c.column, required⟩ }
  else return s

/-- Whether a possible key is out of reach, because it may neither go over a line nor be longer than
1024 characters. -/
def isStale (c : Cursor) (k : PossibleKey) : Bool := k.line < c.line || k.index + 1024 < c.index

/-- Gives up every possible key that is out of reach. -/
def dropStaleKeys? (s : Scan) : Option Scan :=
  let stale (k : Option PossibleKey) : Bool := k.any (isStale s.cursor)
  let keep (k : Option PossibleKey) : Option PossibleKey := if stale k then none else k
  if (s.possibleKey :: s.outerKeys).any fun k => stale k && k.any (·.required) then none
  else some { s with possibleKey := keep s.possibleKey, outerKeys := s.outerKeys.map keep }

/-! ## Blocks -/

/-- Opens a block at a column if that is further in than the block around it; `n` tokens come before
its start. -/
def openBlock (s : Scan) (column n : Nat) (t : Token) : Scan :=
  if !s.inFlow && s.indent < column then
    { s.insertAt n t with indent := column, outerIndents := s.indent :: s.outerIndents }
  else s

/-- Closes blocks, from the innermost on, as long as they are further in than the column. -/
def closeBlocks (column : Int) (tokens : List Token) (indent : Int) : List Int →
    List Token × Int × List Int
  | [] => (tokens, indent, [])
  | outer :: outers =>
      if column < indent then closeBlocks column (.blockEnd :: tokens) outer outers
      else (tokens, indent, outer :: outers)

/-- Closes the blocks that are further in than a column. -/
def unroll (s : Scan) (column : Int) : Scan :=
  if s.inFlow then s
  else
    let (tokens, indent, outerIndents) := closeBlocks column s.tokens s.indent s.outerIndents
    { s with tokens, indent, outerIndents }

/-! ## Space between tokens -/

/-- Passes blanks, comments and line breaks, at most `n` lines of them. Tabs are passed only where
no key can start, and a byte order mark only at the start of a line. -/
def skipSpace (s : Scan) : Nat → Scan
  | 0 => s
  | n + 1 =>
      let c := s.cursor
      let c := if c.column == 0 && c.peek == some '\ufeff' then c.skip 1 else c
      let c := c.skipWhile fun d => d == ' ' || (d == '\t' && (s.inFlow || !s.keyAllowed))
      let c := if c.peek == some '#' then c.skipWhile (!isBreak ·) else c
      if c.peek.any isBreak then
        skipSpace { s with cursor := c.lineBreak.2, keyAllowed := s.keyAllowed || !s.inFlow } n
      else { s with cursor := c }

/-! ## Directives, anchors and tags -/

/-- A number of a version, of at most nine digits. -/
def readNumber (c : Cursor) : Option (Nat × Cursor) :=
  let (digits, c) := c.span Char.isDigit
  if digits.isEmpty || 9 < digits.length then none else some (decimal digits, c)

/-- A tag handle: an exclamation mark, or a name between two. In a directive nothing else may follow
the first mark. -/
def readTagHandle (directive : Bool) (c : Cursor) : Option (Text × Cursor) :=
  if c.peek != some '!' then none
  else
    let (name, c) := (c.skip 1).span isNameChar
    if c.peek == some '!' then some ('!' :: name ++ ['!'], c.skip 1)
    else if directive && !name.isEmpty then none
    else some ('!' :: name, c)

/-- A character of a tag; brackets and commas only where `verbatim`. -/
def isTagChar (verbatim : Bool) (c : Char) : Bool :=
  isNameChar c || ";/?:@&=+$.!~*'()".toList.contains c || (verbatim && ",[]".toList.contains c)

/-- The number of bytes of a character that starts with the given byte. -/
def sequenceLength? (byte : Nat) : Option Nat :=
  if byte < 0x80 then some 1
  else if 0xC0 ≤ byte && byte < 0xE0 then some 2
  else if 0xE0 ≤ byte && byte < 0xF0 then some 3
  else if 0xF0 ≤ byte && byte < 0xF8 then some 4
  else none

/-- The byte that a percent sign and two hexadecimal digits stand for. -/
def readPercentByte (c : Cursor) : Option (Nat × Cursor) :=
  match c.rest with
  | '%' :: a :: b :: _ => (hexNumber? [a, b]).map (·, c.skip 3)
  | _ => none

/-- Passes `n` bytes that continue a character. -/
def skipPercentTail : Nat → Cursor → Option Cursor
  | 0, c => some c
  | n + 1, c => do
      let (byte, c) ← readPercentByte c
      if 0x80 ≤ byte && byte < 0xC0 then skipPercentTail n c else none

/-- Passes the characters of a tag, at most `n`, and says whether there were any. -/
def skipTagText (verbatim : Bool) : Nat → Bool → Cursor → Option (Bool × Cursor)
  | 0, some?, c => some (some?, c)
  | n + 1, some?, c =>
      match c.peek with
      | none => some (some?, c)
      | some d =>
          if d == '%' then do
            let (byte, c) ← readPercentByte c
            let c ← skipPercentTail ((← sequenceLength? byte) - 1) c
            skipTagText verbatim n true c
          else if isTagChar verbatim d then skipTagText verbatim n true (c.skip 1)
          else some (some?, c)

/-- Passes the characters of a tag, of which there must be one unless `optional`. -/
def tagText? (verbatim optional : Bool) (c : Cursor) : Option Cursor := do
  let (nonempty, c) ← skipTagText verbatim c.rest.length false c
  if nonempty || optional then some c else none

/-- A directive, which starts with a percent sign here: a version or a tag handle. -/
def readDirective (c : Cursor) : Option (Token × Cursor) := do
  let (name, c) := (c.skip 1).span isNameChar
  if !isGap c.peek then none
  else
    let c := c.skipWhile Text.isBlank
    match String.ofList name with
    | "YAML" =>
        let (major, c) ← readNumber c
        if c.peek != some '.' then none
        else
          let (minor, c) ← readNumber (c.skip 1)
          return (.version major minor, ← c.endLine?)
    | "TAG" =>
        let (handle, c) ← readTagHandle true c
        if !c.peek.any Text.isBlank then none
        else
          let c ← tagText? true false (c.skipWhile Text.isBlank)
          if isGap c.peek then return (.tagHandle handle, ← c.endLine?) else none
    | _ => none

/-- The name of an anchor or alias, whose indicator comes next. -/
def readAnchorName (c : Cursor) : Option (Text × Cursor) :=
  let (name, c) := (c.skip 1).span isNameChar
  let ends := isGap c.peek || c.peek.any fun d =>
    d ∈ ['?', ':', ',', ']', '}', '%', '@', '\u0060']
  if name.isEmpty || !ends then none else some (name, c)

/-- The handle of a tag and the place after the tag. A tag is verbatim in angle brackets, or a
handle with a suffix. A handle that is no more than the start of the suffix is the primary one. -/
def readTagParts (c : Cursor) : Option (Text × Cursor) := do
  if c.peekAt 1 == some '<' then
    let c ← tagText? true false (c.skip 2)
    if c.peek == some '>' then return ([], c.skip 1) else none
  else
    let (handle, c) ← readTagHandle false c
    if 1 < handle.length && handle.getLast? == some '!' then
      return (handle, ← tagText? false false c)
    else return (['!'], ← tagText? false true c)

/-- A tag, which must be followed by a gap, or by a comma in a flow collection. -/
def readTag (inFlow : Bool) (c : Cursor) : Option (Token × Cursor) := do
  let (handle, c) ← readTagParts c
  if isGap c.peek || (inFlow && c.peek == some ',') then return (.tag handle, c) else none

/-! ## The next token -/

/-- Adds an anchor, alias, tag or scalar, with which a key may start. -/
def content (s : Scan) (read : Cursor → Option (Token × Cursor)) : Option Scan := do
  let s ← s.saveKey?
  let (t, c) ← read s.cursor
  return { s with keyAllowed := false }.emit t c

/-- Adds the start of a flow collection. -/
def flowStart (s : Scan) (t : Token) : Option Scan := do
  let s ← s.saveKey?
  return { s with
    outerKeys := s.possibleKey :: s.outerKeys, possibleKey := none, keyAllowed :=
      true }.emitSkip t 1

/-- Adds the end of a flow collection. -/
def flowEnd (s : Scan) (t : Token) : Option Scan := do
  let s ← s.dropKey?
  let s := match s.outerKeys with
    | [] => s
    | k :: ks => { s with possibleKey := k, outerKeys := ks }
  return { s with keyAllowed := false }.emitSkip t 1

/-- Adds a dash before an entry of a block sequence. -/
def blockEntry (s : Scan) : Option Scan := do
  if !s.inFlow && !s.keyAllowed then none
  else
    let s ← (s.openBlock s.cursor.column s.tokens.length .blockSequenceStart).dropKey?
    return { s with keyAllowed := true }.emitSkip .blockEntry 1

/-- Adds a question mark before a key. -/
def explicitKey (s : Scan) : Option Scan := do
  if !s.inFlow && !s.keyAllowed then none
  else
    let s ← (s.openBlock s.cursor.column s.tokens.length .blockMappingStart).dropKey?
    return { s with keyAllowed := !s.inFlow }.emitSkip .key 1

/-- Adds a colon before a value. If it comes after a possible key, that is a key. -/
def value (s : Scan) : Option Scan :=
  match s.possibleKey with
  | some k =>
      let s := { s with possibleKey := none, keyAllowed := false }.insertAt k.tokensBefore .key
      some ((s.openBlock k.column k.tokensBefore .blockMappingStart).emitSkip .value 1)
  | none =>
      if s.inFlow then some ({ s with keyAllowed := false }.emitSkip .value 1)
      else if s.keyAllowed then
        some ((s.openBlock s.cursor.column s.tokens.length .blockMappingStart).emitSkip .value 1)
      else none

/-- Adds a directive or a marker of a document, which ends all blocks. -/
def boundary (s : Scan) (read : Cursor → Option (Token × Cursor)) : Option Scan := do
  let s ← (s.unroll (-1)).dropKey?
  let (t, c) ← read s.cursor
  return { s with keyAllowed := false }.emit t c

/-- Whether a plain scalar can start with these characters. -/
def startsPlain (inFlow : Bool) (d : Char) (next : Option Char) : Bool :=
  if d == '-' then !next.any Text.isBlank
  else if d == '?' || d == ':' then !inFlow && !isGap next
  else
    !(Text.isBlank d || isFlowIndicator d
      || d ∈ ['#', '&', '*', '!', '|', '>', '\'', '"', '%', '@', '\u0060'])

/-- Adds the token that starts with the character `d`. -/
def token (s : Scan) (d : Char) : Option Scan :=
  let c := s.cursor
  let next := c.peekAt 1
  if c.column == 0 && d == '%' then s.boundary readDirective
  else if c.isMarker '-' then s.boundary fun c => some (.documentStart, c.skip 3)
  else if c.isMarker '.' then s.boundary fun c => some (.documentEnd, c.skip 3)
  else
    match d with
    | '[' => s.flowStart .flowSequenceStart
    | '{' => s.flowStart .flowMappingStart
    | ']' => s.flowEnd .flowSequenceEnd
    | '}' => s.flowEnd .flowMappingEnd
    | ',' => do return { ← s.dropKey? with keyAllowed := true }.emitSkip .flowEntry 1
    | '*' => s.content fun c => (readAnchorName c).map fun (name, c) => (.alias name, c)
    | '&' => s.content fun c => (readAnchorName c).map fun (name, c) => (.anchor name, c)
    | '!' => s.content (readTag s.inFlow)
    | '\'' => s.content fun c => (readQuoted '\'' c).map fun (t, c) => (.scalar t false, c)
    | '"' => s.content fun c => (readQuoted '"' c).map fun (t, c) => (.scalar t false, c)
    | _ =>
        if d == '-' && isGap next then s.blockEntry
        else if d == '?' && (s.inFlow || isGap next) then s.explicitKey
        else if d == ':' && (s.inFlow || isGap next) then s.value
        else if (d == '|' || d == '>') && !s.inFlow then do
          let s ← s.dropKey?
          let (t, c) ← readBlock (d == '|') s.indent s.cursor
          return { s with keyAllowed := true }.emit (.scalar t false) c
        else if startsPlain s.inFlow d next then do
          let s ← s.saveKey?
          let (t, broken, c) ← readPlain s.inFlow (s.indent + 1).toNat s.cursor
          return { s with keyAllowed := broken }.emit (.scalar t true) c
        else none

/-- Cuts the rest of the text, which has at most `n` tokens. -/
def finish : Nat → Scan → Option (List Token)
  | 0, _ => none
  | n + 1, s => do
      let s ← (s.skipSpace (s.cursor.rest.length + 1)).dropStaleKeys?
      let s := s.unroll s.cursor.column
      match s.cursor.peek with
      | some d => finish n (← s.token d)
      | none => return (← (s.unroll (-1)).dropKey?).tokens.reverse

end Scan

/-- The tokens of a text, if it can be cut into tokens. -/
def tokens? (t : Text) : Option (List Token) :=
  if t.all isAllowed then Scan.finish (t.length + 1) { cursor := { rest := t } } else none

end Rewrap.Yaml
