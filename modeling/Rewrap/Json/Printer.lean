import Rewrap.Json.Basic

/-! # Writing JSON

A value is written over several lines, two columns further in for each array or object around it. -/

namespace Rewrap.Json

/-- A line break, and the blanks that lead the next line. -/
def newline (depth : Nat) : Text := '\n' :: List.replicate (2 * depth) ' '

/-- A written string in its quotes. -/
def quoted (written : Text) : Text := '"' :: written ++ ['"']

/-- The value, written at the given depth. -/
def print (depth : Nat) : Json → Text
  | .null => "null".toList
  | .bool b => (if b then "true" else "false").toList
  | .number written => written
  | .string written => quoted written
  | .array [] => "[]".toList
  | .array (j :: js) => '[' :: newline (depth + 1) ++ print (depth + 1) j ++ printItems depth js
  | .object [] => ['\x7b', '\x7d']
  | .object ((key, j) :: fs) =>
      '\x7b' :: newline (depth + 1) ++ quoted key ++ [':', ' '] ++ print (depth + 1) j
        ++ printFields depth fs
  | .malformed => []
where
  /-- The items of an array after one of them, and its end. -/
  printItems (depth : Nat) : List Json → Text
    | [] => newline depth ++ [']']
    | j :: js => ',' :: newline (depth + 1) ++ print (depth + 1) j ++ printItems depth js
  /-- The fields of an object after one of them, and its end. -/
  printFields (depth : Nat) : List (Text × Json) → Text
    | [] => newline depth ++ ['\x7d']
    | (key, j) :: fs =>
        ',' :: newline (depth + 1) ++ quoted key ++ [':', ' '] ++ print (depth + 1) j
          ++ printFields depth fs

/-- The text of a value. -/
def text (j : Json) : Text := j.print 0

end Rewrap.Json
