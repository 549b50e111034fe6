import Rewrap.Json.Reader
import Rewrap.Text.Pattern
import Rewrap.Text.Quoted

/-! # Reading records from JSON

A record is written as an object with its fields in any order, or as an array with its fields in
their own order. What is wrong is found in the order of the text: the first fault counts. Unknown
fields of an object do not count, but what they hold has to be JSON. -/

namespace Rewrap.Json

/-! ## Faults -/

/-- Why a value cannot be read. -/
inductive Fault where
  | malformed
  | wrongType (found expected : String)
  | missingField (name : String)
  | duplicateField (name : String)
  | wrongLength (length : Nat) (expected : String)
  | unknownVariant (name : String)
  | unreadable (what : String)
  | trailing
deriving DecidableEq

def Fault.message : Fault → String
  | .malformed => "the text is not JSON"
  | .wrongType found expected => "invalid type: " ++ found ++ ", expected " ++ expected
  | .missingField name => "missing field `" ++ name ++ "`"
  | .duplicateField name => "duplicate field `" ++ name ++ "`"
  | .wrongLength length expected =>
      "invalid length " ++ toString length ++ ", expected " ++ expected
  | .unknownVariant name => "unknown variant `" ++ name ++ "`"
  | .unreadable what => "invalid " ++ what
  | .trailing => "trailing characters"

/-- Whether the fault is worded as one of a missing field, which is what data of an older format
shows itself by. -/
def Fault.isOldFormat (f : Fault) : Bool :=
  (Pattern.literal "missing field".toList).occursIn f.message.toList

/-! ## Single values -/

/-- Reads a value of some type. -/
abbrev Decoder (α : Type) := Json → Except Fault α

/-- What stands in the place of something else. -/
def wrongType (expected : String) (j : Json) : Fault :=
  match j with
  | .null => .wrongType "null" expected
  | .bool b => .wrongType ("boolean `" ++ (if b then "true" else "false") ++ "`") expected
  | .number written => .wrongType ("number `" ++ String.ofList written ++ "`") expected
  | .string written =>
      match textOf? written with
      | some s => .wrongType ("string " ++ Quoted.quote s) expected
      | none => .malformed
  | .array _ => .wrongType "sequence" expected
  | .object _ => .wrongType "map" expected
  | .malformed => .malformed

/-- A written string as its text. -/
def decodeWritten (written : Text) : Except Fault String :=
  match textOf? written with
  | some s => .ok s
  | none => .error .malformed

def decodeString : Decoder String
  | .string written => decodeWritten written
  | j => .error (wrongType "a string" j)

def decodeBool : Decoder Bool
  | .bool b => .ok b
  | j => .error (wrongType "a boolean" j)

/-- Decodes all of a list, from the first to the last. -/
def decodeList {α : Type} (d : Decoder α) : Decoder (List α)
  | .array items => items.mapM d
  | j => .error (wrongType "a sequence" j)

/-- Decodes an object as a map from its keys. -/
def decodeMap {α : Type} (d : Decoder α) : Decoder (List (String × α))
  | .object fields => fields.mapM fun (key, j) => do return (← decodeWritten key, ← d j)
  | j => .error (wrongType "a map" j)

/-! ## Records -/

/-- A field of a record: its name, and the first fault of a value it is given. -/
structure Field where
  name : String
  check : Json → Except Fault Unit

/-- The field of the given name whose values the decoder reads. -/
def field {α : Type} (name : String) (d : Decoder α) : Field :=
  ⟨name, fun j => (d j).map fun _ => ()⟩

/-- The values of the known fields of an object, which are checked one after the other. -/
def knownFields (fields : List Field) : List (String × Json) → List (Text × Json) →
    Except Fault (List (String × Json))
  | found, [] => .ok found
  | found, (key, j) :: rest => do
      let name ← if j matches .malformed then .error .malformed else decodeWritten key
      match fields.find? (·.name == name) with
      | some f =>
          if (found.lookup name).isSome then .error (.duplicateField name)
          else
            f.check j
            knownFields fields ((name, j) :: found) rest
      | none => if j.isWhole then knownFields fields found rest else .error .malformed

/-- The values of the fields in an array, which are checked one after the other. -/
def listedFields (expected : String) (count : Nat) :
    List Field → List Json → Except Fault (List (String × Json))
  | [], [] => .ok []
  | [], _ :: _ => .error .trailing
  | _ :: _, [] => .error (.wrongLength count expected)
  | f :: fs, j :: js => do
      f.check j
      return (f.name, j) :: (← listedFields expected (count + 1) fs js)

/-- The values of a record's fields by their names. -/
def recordFields (expected : String) (fields : List Field) : Decoder (List (String × Json))
  | .object given => knownFields fields [] given
  | .array items => listedFields expected 0 fields items
  | j => .error (wrongType expected j)

/-- The value of one of a record's fields. -/
def required {α : Type} (values : List (String × Json)) (name : String) (d : Decoder α) :
    Except Fault α :=
  match values.lookup name with
  | some j => d j
  | none => .error (.missingField name)

/-- Decodes what a text holds. -/
def decodeText {α : Type} (d : Decoder α) (t : Text) : Except Fault α := do
  let (j, ended) := read t
  let a ← d j
  if ended then return a else .error .trailing

end Rewrap.Json
