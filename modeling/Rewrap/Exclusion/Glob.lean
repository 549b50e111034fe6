import Rewrap.Text.Basic

/-! # Wildcard patterns for paths

In a wildcard pattern `?` stands for any one character and `*` for any number of characters, slashes
included. `**` must be a whole component of the pattern and stands for any number of directories, or
for anything when it comes last. Brackets list characters, of which they stand for one. Every other
character stands for itself, and so does a bracket that is listed alone. -/

namespace Rewrap

/-- The characters that a pair of brackets stands for: those in the listed ranges, or all others. -/
structure Glob.CharClass where
  isOthers : Bool
  ranges : List (Char × Char)
deriving DecidableEq

/-- One element of a wildcard pattern. -/
inductive Glob.Token where
  | char (c : Char)
  | anyChar
  | oneOf (cs : CharClass)
  | anyText
  | anyDirectories
deriving DecidableEq

/-- A wildcard pattern. -/
structure Glob where
  tokens : List Glob.Token
deriving DecidableEq

namespace Glob

/-! ## Reading a class -/

namespace CharClass

/-- The ranges that brackets list: two characters with a hyphen between them are the ends of a
range, and any other character is a range of its own. -/
def rangesOf : List Char → List (Char × Char)
  | a :: '-' :: b :: cs => (a, b) :: rangesOf cs
  | c :: cs => (c, c) :: rangesOf cs
  | [] => []

/-- What is listed before the closing bracket. A closing bracket that comes first is listed
itself. -/
def listed? : List Char → Option (List Char)
  | [] => none
  | c :: cs => if cs.contains ']' then some (c :: cs.takeWhile (· != ']')) else none

/-- The class after an opening bracket, and the number of characters up to its closing bracket. -/
def read? : List Char → Option (CharClass × Nat)
  | '!' :: cs => (listed? cs).map fun listed => (⟨true, rangesOf listed⟩, listed.length + 2)
  | cs => (listed? cs).map fun listed => (⟨false, rangesOf listed⟩, listed.length + 1)

def contains (cs : CharClass) (c : Char) : Bool :=
  cs.ranges.any (fun (a, b) => a ≤ c && c ≤ b) != cs.isOthers

end CharClass

/-! ## Reading a pattern -/

/-- What is wrong with a wildcard or with brackets. -/
inductive Fault where
  | tooManyStars
  | partOfComponent
  | unclosed
deriving DecidableEq

def Fault.message : Fault → String
  | .tooManyStars => "wildcards are either regular `*` or recursive `**`"
  | .partOfComponent => "recursive wildcards must form a single path component"
  | .unclosed => "invalid range pattern"

/-- A fault and its position, which counts characters. -/
structure Error where
  position : Nat
  fault : Fault
deriving DecidableEq

def Error.message (e : Error) : String :=
  "Pattern syntax error near position " ++ toString e.position ++ ": " ++ e.fault.message

/-- Adds a run of directories, of which two in a row count as one. -/
def consDirectories : List Token → List Token
  | .anyDirectories :: tokens => .anyDirectories :: tokens
  | tokens => .anyDirectories :: tokens

/-- The tokens for a run of stars that ends at `position`. `atStart` says whether the run begins a
component, and `next` is the character after it. -/
def starTokens (position stars : Nat) (atStart : Bool) (next : Option Char) :
    Except Error (List Token) :=
  match stars with
  | 0 => .ok []
  | 1 => .ok [.anyText]
  | 2 =>
      if !atStart then .error ⟨position - 3, .partOfComponent⟩
      else if next.all (· == '/') then .ok [.anyDirectories]
      else .error ⟨position, .partOfComponent⟩
  | _ => .error ⟨position - stars + 2, .tooManyStars⟩

/-- The token for a character that is no star and no opening bracket. -/
def charToken (c : Char) : Token := if c == '?' then .anyChar else .char c

/-- The tokens of the rest of a pattern, which stands at `position`. `stars` counts the stars read
just before it, and `atStart` says whether those, or else the rest, begin a component. The first
`skip` characters belong to a class that was read already. The slash after `**` belongs to the
wildcard. -/
def tokensFrom (position stars : Nat) (atStart : Bool) (skip : Nat) :
    List Char → Except Error (List Token)
  | [] => starTokens position stars atStart none
  | c :: cs =>
      match skip, c with
      | skip + 1, _ => tokensFrom (position + 1) stars atStart skip cs
      | 0, '*' => tokensFrom (position + 1) (stars + 1) atStart 0 cs
      | 0, '[' => do
          let wildcard ← starTokens position stars atStart (some '[')
          match CharClass.read? cs with
          | none => .error ⟨position, .unclosed⟩
          | some (chars, skip) =>
              let rest ← tokensFrom (position + 1) 0 false skip cs
              return wildcard ++ .oneOf chars :: rest
      | 0, c => do
          let wildcard ← starTokens position stars atStart (some c)
          let rest ← tokensFrom (position + 1) 0 (c == '/') 0 cs
          return if stars == 2 then consDirectories rest else wildcard ++ charToken c :: rest

/-- Reads a wildcard pattern. -/
def ofText (t : Text) : Except Error Glob := Glob.mk <$> tokensFrom 0 0 true 0 t

/-- The text with each bracket in brackets of its own, so that it stands for itself in a pattern. -/
def quoteBrackets (t : Text) : Text :=
  t.flatMap fun c => if c == '[' || c == ']' then ['[', c, ']'] else [c]

/-! ## Matching -/

/-- Whether some end of the text, the text itself included, has the property. -/
def someEnd (p : Text → Bool) : Text → Bool
  | [] => p []
  | c :: t => p (c :: t) || someEnd p t

/-- Whether the text has the property, or some end of it that follows a slash. -/
def someDirectory (p : Text → Bool) : Text → Bool
  | [] => p []
  | c :: t => p (c :: t) || afterSlash p (c :: t)
where
  afterSlash (p : Text → Bool) : Text → Bool
    | [] => false
    | c :: t => (c == '/' && p t) || afterSlash p t

/-- Whether the text is matched by the tokens. -/
def matchTokens : List Token → Text → Bool
  | [] => List.isEmpty
  | .char c :: tokens => fun t =>
      match t with
      | [] => false
      | d :: t => c == d && matchTokens tokens t
  | .anyChar :: tokens => fun t =>
      match t with
      | [] => false
      | _ :: t => matchTokens tokens t
  | .oneOf cs :: tokens => fun t =>
      match t with
      | [] => false
      | d :: t => cs.contains d && matchTokens tokens t
  | .anyText :: tokens => someEnd (matchTokens tokens)
  | [.anyDirectories] => fun _ => true
  | .anyDirectories :: tokens => someDirectory (matchTokens tokens)

/-- Whether the pattern matches the whole text. -/
def accepts (g : Glob) (t : Text) : Bool := matchTokens g.tokens t

end Glob

end Rewrap
