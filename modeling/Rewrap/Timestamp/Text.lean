import Rewrap.Text.Basic
import Rewrap.Text.WhiteSpace
import Rewrap.Timestamp.Basic

/-! # Timestamps as text

A timestamp is written as `2020-01-31T23:59:59.5Z` is, with as many digits after the point as it
needs in steps of three. Reading is more lenient: white space may stand between the parts, numbers
may lack leading zeros, and the time may be given with an offset from UTC. -/

namespace Rewrap.Timestamp

/-! ## Writing -/

/-- A number with leading zeros. -/
def padded (width n : Nat) : String :=
  let digits := toString n
  String.ofList (List.replicate (width - digits.length) '0') ++ digits

/-- A year: four digits, or a sign and at least four digits outside the first ten thousand years. -/
def yearText (year : Int) : String :=
  if year < 0 then "-" ++ padded 4 year.natAbs
  else if year < 10000 then padded 4 year.natAbs
  else "+" ++ padded 4 year.natAbs

def dateText (t : Timestamp) : String :=
  yearText t.year ++ "-" ++ padded 2 t.month ++ "-" ++ padded 2 t.day

/-- The part of a second, as far as it is not zero. -/
def fractionText (nano : Nat) : String :=
  if nano == 0 then ""
  else if nano % 1000000 == 0 then "." ++ padded 3 (nano / 1000000)
  else if nano % 1000 == 0 then "." ++ padded 6 (nano / 1000)
  else "." ++ padded 9 nano

/-- The timestamp as it is stored. -/
def text (t : Timestamp) : String :=
  t.dateText ++ "T" ++ padded 2 t.hour ++ ":" ++ padded 2 t.minute ++ ":" ++ padded 2 t.second
    ++ fractionText t.nano ++ "Z"

/-- The timestamp up to the minute. -/
def minuteText (t : Timestamp) : String :=
  t.dateText ++ " " ++ padded 2 t.hour ++ ":" ++ padded 2 t.minute

/-! ## Reading -/

/-- Reads a part of a text, and gives what follows it. -/
abbrev Reader (α : Type) := StateT Text Option α

namespace Reader

/-- Skips white space. -/
def space : Reader Unit := modify (·.dropWhile isWhiteSpace)

/-- The number that digits stand for. -/
def digitsValue (digits : Text) : Nat := digits.foldl (fun n c => n * 10 + (c.toNat - '0'.toNat)) 0

/-- At least one and at most `limit` digits. -/
def digits (limit : Option Nat) : Reader Text := do
  let all := (← get).takeWhile Char.isDigit
  let read := match limit with
    | some n => all.take n
    | none => all
  if read.isEmpty then failure
  else
    modify (·.drop read.length)
    return read

/-- One of the given characters. -/
def oneOf (cs : List Char) : Reader Char := do
  match ← get with
  | c :: rest =>
      if cs.contains c then
        set rest
        return c
      else failure
  | [] => failure

/-- A number of up to two digits after any white space. -/
def twoDigits : Reader Nat := do
  space
  return digitsValue (← digits (some 2))

/-- A number that follows a mark, with white space around the mark. -/
def marked (mark : Char) : Reader Nat := do
  space
  let _ ← oneOf [mark]
  twoDigits

/-- A year: up to four digits, or any number of them after a sign. -/
def year : Reader Int := do
  space
  match ← get with
  | '-' :: rest => set rest; return -(digitsValue (← digits none) : Int)
  | '+' :: rest => set rest; return (digitsValue (← digits none) : Int)
  | _ => return (digitsValue (← digits (some 4)) : Int)

/-- The part of a second in nanoseconds, if there is a point; digits after the ninth do not
count. -/
def fraction : Reader Nat := do
  match ← get with
  | '.' :: rest =>
      set rest
      let read ← digits (some 9)
      modify (·.dropWhile Char.isDigit)
      return digitsValue (read ++ List.replicate (9 - read.length) '0')
  | _ => return 0

/-- Exactly two digits, of which the first is not greater than `high`. -/
def pair (high : Char) : Reader Nat := do
  match ← get with
  | a :: b :: rest =>
      if a.isDigit && b.isDigit && a ≤ high then
        set rest
        return digitsValue [a, b]
      else failure
  | _ => failure

/-- Whether the text begins with `UTC`, in any case. -/
def isUtc (t : Text) : Bool := (t.take 3).map Char.toLower == ['u', 't', 'c']

/-- The offset from UTC in minutes. -/
def offset : Reader Int := do
  let t ← get
  if isUtc t then
    set (t.drop 3)
    return 0
  else
    let sign ← oneOf ['Z', 'z', '+', '-', '−']
    if sign == 'Z' || sign == 'z' then return 0
    else
      let hours ← pair '9'
      modify (·.dropWhile fun c => c == ':' || isWhiteSpace c)
      let minutes ← pair '5'
      let total : Int := hours * 60 + minutes
      if 24 ≤ hours then failure
      else return if sign == '+' then total else -total

/-- A timestamp at the start of a text. -/
def timestamp : Reader Timestamp := do
  let year ← year
  let month ← marked '-'
  let day ← marked '-'
  let _ ← oneOf ['t', 'T', ' ']
  let hour ← twoDigits
  let minute ← marked ':'
  let second ← marked ':'
  let nano ← fraction
  space
  let offset ← offset
  if isDate year month day && hour < 24 && minute < 60 && second ≤ 60 then
    let minutes : Int := hour * 60 + minute - offset
    let days := Int.fdiv minutes 1440
    let minutes := (minutes - days * 1440).toNat
    let (year, month, day) :=
      if days == 0 then (year, month, day) else dateOf (dayNumber year month day + days)
    if isYear year then return ⟨year, month, day, minutes / 60, minutes % 60, second, nano⟩
    else failure
  else failure

end Reader

/-- The timestamp that a text stands for. -/
def ofText? (s : String) : Option Timestamp :=
  match Reader.timestamp s.toList with
  | some (t, rest) => if rest.all isWhiteSpace then some t else none
  | none => none

end Rewrap.Timestamp
