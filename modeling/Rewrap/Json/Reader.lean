import Rewrap.Json.Basic

/-! # Reading JSON

A text is read from left to right. Where it stops making sense, the value ends in a malformed part
and nothing after it is read. -/

namespace Rewrap.Json

def isSpace (c : Char) : Bool := c == ' ' || c == '\n' || c == '\t' || c == '\r'

def dropSpace (t : Text) : Text := t.dropWhile isSpace

/-- A string after its opening quote, as it is written, and what follows its closing quote. Control
characters are not allowed, and every escape must be one. -/
def readString : Text → Option (Text × Text)
  | [] => none
  | '"' :: t => some ([], t)
  | '\\' :: 'u' :: a :: b :: c :: d :: t =>
      if (hexCode? [a, b, c, d]).isSome then
        (readString t).map fun (s, t) => ('\\' :: 'u' :: a :: b :: c :: d :: s, t)
      else none
  | '\\' :: c :: t =>
      if (escapeOf? c).isSome then (readString t).map fun (s, t) => ('\\' :: c :: s, t) else none
  | c :: t =>
      if c.toNat < 0x20 || c == '\\' then none else (readString t).map fun (s, t) => (c :: s, t)

/-- The digits that lead a text, if there are any, and what follows them. -/
def readDigits? (t : Text) : Option (Text × Text) :=
  let digits := t.takeWhile Char.isDigit
  if digits.isEmpty then none else some (digits, t.dropWhile Char.isDigit)

/-- The whole part of a number, which has no leading zero. -/
def readWhole? (t : Text) : Option (Text × Text) := do
  let (digits, rest) ← readDigits? t
  if digits.head? == some '0' && 1 < digits.length then none else some (digits, rest)

/-- The part of a number after its point, if there is one. -/
def readFraction? (t : Text) : Option (Text × Text) :=
  match t with
  | '.' :: t => (readDigits? t).map fun (digits, t) => ('.' :: digits, t)
  | t => some ([], t)

/-- The exponent of a number, if there is one. -/
def readExponent? (t : Text) : Option (Text × Text) :=
  match t with
  | e :: t =>
      if e == 'e' || e == 'E' then
        match t with
        | s :: u =>
            if s == '+' || s == '-' then (readDigits? u).map fun (ds, t) => (e :: s :: ds, t)
            else (readDigits? t).map fun (ds, t) => (e :: ds, t)
        | [] => none
      else some ([], e :: t)
  | [] => some ([], [])

/-- A number as it is written, and what follows it. -/
def readNumber? (t : Text) : Option (Text × Text) := do
  let (sign, t) := match t with
    | '-' :: t => (['-'], t)
    | t => ([], t)
  let (whole, t) ← readWhole? t
  let (fraction, t) ← readFraction? t
  let (exponent, t) ← readExponent? t
  return (sign ++ whole ++ fraction ++ exponent, t)

/-- The value of one of the words `null`, `true` and `false`, and what follows it. -/
def readWord? (t : Text) : Option (Json × Text) :=
  match "null".toList.isPrefixOf? t, "true".toList.isPrefixOf? t, "false".toList.isPrefixOf? t with
  | some t, _, _ => some (.null, t)
  | _, some t, _ => some (.bool true, t)
  | _, _, some t => some (.bool false, t)
  | _, _, _ => none

/-- A value that is given, or a malformed one after which nothing is read. -/
def orMalformed (r : Option (Json × Text)) : Json × Option Text :=
  match r with
  | some (j, t) => (j, some t)
  | none => (.malformed, none)

mutual

/-- The value that leads a text, and what follows it unless the value is cut short; values are
nested and follow each other at most `n` deep. -/
def readValue : Nat → Text → Json × Option Text
  | 0, _ => (.malformed, none)
  | n + 1, t =>
      match dropSpace t with
      | '"' :: t => orMalformed ((readString t).map fun (s, t) => (.string s, t))
      | '[' :: t =>
          match dropSpace t with
          | ']' :: t => (.array [], some t)
          | t => let (items, rest) := readItems n t; (.array items, rest)
      | '\x7b' :: t =>
          match dropSpace t with
          | '\x7d' :: t => (.object [], some t)
          | t => let (fields, rest) := readFields n t; (.object fields, rest)
      | t =>
          orMalformed ((readWord? t).orElse fun _ => (readNumber? t).map
            fun (s, t) => (.number s, t))

/-- The items of an array from one of them on. -/
def readItems : Nat → Text → List Json × Option Text
  | 0, _ => ([.malformed], none)
  | n + 1, t =>
      match readValue n t with
      | (j, none) => ([j], none)
      | (j, some t) =>
          match dropSpace t with
          | ']' :: t => ([j], some t)
          | ',' :: t => let (items, rest) := readItems n t; (j :: items, rest)
          | _ => ([j, .malformed], none)

/-- The fields of an object from one of them on. -/
def readFields : Nat → Text → List (Text × Json) × Option Text
  | 0, _ => ([([], .malformed)], none)
  | n + 1, t =>
      match dropSpace t with
      | '"' :: t =>
          match readString t with
          | none => ([([], .malformed)], none)
          | some (key, t) =>
              match dropSpace t with
              | ':' :: t =>
                  match readValue n t with
                  | (j, none) => ([(key, j)], none)
                  | (j, some t) =>
                      match dropSpace t with
                      | '\x7d' :: t => ([(key, j)], some t)
                      | ',' :: t => let (fields, rest) := readFields n t; ((key, j) :: fields, rest)
                      | _ => ([(key, j), ([], .malformed)], none)
              | _ => ([(key, .malformed)], none)
      | _ => ([([], .malformed)], none)

end

/-- The value that a text holds, and whether nothing but space follows it. Every value takes a
character and so does every step from one to the next. -/
def read (t : Text) : Json × Bool :=
  let (j, rest) := readValue (2 * t.length + 2) t
  (j, rest.any fun t => (dropSpace t).isEmpty)

/-- The value that a text holds, if it is well-formed. -/
def read? (t : Text) : Option Json :=
  let (j, ended) := read t
  if ended && j.isWhole then some j else none

end Rewrap.Json
