import Rewrap.Json.Printer
import Rewrap.Json.Record
import Rewrap.Run.Basic
import Rewrap.Timestamp.Text

/-! # Stored runs

Runs and their index are stored as JSON. A record is written as an object with its fields in a fixed
order; it can also be read from an array of them. -/

namespace Rewrap

open Json (Decoder decodeString decodeBool decodeList decodeMap field recordFields required)

/-- An object with the given fields. -/
def Json.ofFields (fields : List (String × Json)) : Json :=
  .object (fields.map fun (name, j) => (name.toList.flatMap Json.escape, j))

namespace Path

def toJson (p : Path) : Json := .ofString p.text

def decode : Decoder Path
  | .string written => (Json.decodeWritten written).map Path.mk
  | j => .error (Json.wrongType "path string" j)

end Path

namespace Timestamp

def toJson (t : Timestamp) : Json := .ofString t.text

def decode : Decoder Timestamp
  | .string written => do
      match ofText? (← Json.decodeWritten written) with
      | some t => return t
      | none => .error (.unreadable "timestamp")
  | j => .error (Json.wrongType "a timestamp" j)

end Timestamp

namespace Change

def toJson (c : Change) : Json :=
  .ofFields [("path", c.path.toJson), ("hash_before", .ofString c.hashBefore),
    ("hash_after", .ofString c.hashAfter), ("backup", c.backup.toJson)]

def decode : Decoder Change := fun j => do
  let values ← recordFields "a changed file"
    [field "path" Path.decode, field "hash_before" decodeString, field "hash_after" decodeString,
      field "backup" Path.decode] j
  return {
    path := ← required values "path" Path.decode
    hashBefore := ← required values "hash_before" decodeString
    hashAfter := ← required values "hash_after" decodeString
    backup := ← required values "backup" Path.decode }

end Change

namespace RunStatus

def name : RunStatus → String
  | .applied => "applied"
  | .reverted => "reverted"

def ofName (name : String) : Except Json.Fault RunStatus :=
  if name = "applied" then .ok .applied
  else if name = "reverted" then .ok .reverted
  else .error (.unknownVariant name)

def toJson (s : RunStatus) : Json := .ofString s.name

/-- A status is given by its name, alone or as the only key of an object. -/
def decode : Decoder RunStatus
  | .string written => do ofName (← Json.decodeWritten written)
  | .object ((key, j) :: rest) => do
      let status ← ofName (← Json.decodeWritten key)
      match j, rest with
      | .null, [] => return status
      | .null, _ => .error .malformed
      | j, _ => .error (Json.wrongType "unit" j)
  | _ => .error .malformed

end RunStatus

namespace Run

def toJson (r : Run) : Json :=
  .ofFields [("run_id", .ofString r.id), ("timestamp", r.timestamp.toJson),
    ("command", .ofString r.command), ("root", r.root.toJson),
    ("files_modified", .array (r.changes.map Change.toJson)), ("status", r.status.toJson),
    ("can_revert", .bool r.canRevert)]

def decode : Decoder Run := fun j => do
  let values ← recordFields "a run"
    [field "run_id" decodeString, field "timestamp" Timestamp.decode, field "command" decodeString,
      field "root" Path.decode, field "files_modified" (decodeList Change.decode),
      field "status" RunStatus.decode, field "can_revert" decodeBool] j
  return {
    id := ← required values "run_id" decodeString
    timestamp := ← required values "timestamp" Timestamp.decode
    command := ← required values "command" decodeString
    root := ← required values "root" Path.decode
    changes := ← required values "files_modified" (decodeList Change.decode)
    status := ← required values "status" RunStatus.decode
    canRevert := ← required values "can_revert" decodeBool }

/-- The text that the run is stored as. -/
def text (r : Run) : Text := r.toJson.text

/-- The run that a text stores. -/
def ofText (t : Text) : Except Json.Fault Run := Json.decodeText decode t

end Run

namespace RunIndex

def toJson (i : RunIndex) : Json :=
  .ofFields [("runs", .ofFields (i.entries.map fun (id, r) => (id, r.toJson)))]

def decode : Decoder RunIndex := fun j => do
  let values ← recordFields "an index of runs" [field "runs" (decodeMap Run.decode)] j
  return ofEntries (← required values "runs" (decodeMap Run.decode))

/-- The text that the index is stored as. -/
def text (i : RunIndex) : Text := i.toJson.text

/-- The index that a text stores. -/
def ofText (t : Text) : Except Json.Fault RunIndex := Json.decodeText decode t

end RunIndex

end Rewrap
