import Rewrap.Action.Basic
import Rewrap.Json.Reader
import Rewrap.Spec
import Rewrap.Yaml.Document

/-! # Spec files

A spec is written as a JSON object or a YAML mapping, in which every field may be missing and
unknown fields do not count. A file whose extension names YAML is read as YAML; any other is read as
JSON, and as YAML if that fails. In JSON the fields may also be listed in their order. -/

namespace Rewrap

namespace Spec

/-- The names of the fields in their order. -/
def fieldNames : List String :=
  ["old_component", "old_module", "new_component", "new_module", "guards", "extensions", "exclude"]

/-- The spec with the given fields, whose values are read as a text or as a list of texts. No field
of a spec may be given twice. -/
def ofFields? {α : Type} (text? : α → Option String) (texts? : α → Option (List String))
    (fields : List (String × α)) : Option Spec := do
  let known := fields.filter fun f => fieldNames.contains f.1
  if (known.map Prod.fst).eraseDups.length < known.length then none
  else
    let one (name default : String) : Option String :=
      ((known.lookup name).map text?).getD (some default)
    let many (name : String) (default : List String) : Option (List String) :=
      ((known.lookup name).map texts?).getD (some default)
    let s : Spec := {}
    return {
      oldComponent := ← one "old_component" s.oldComponent
      oldModule := ← one "old_module" s.oldModule
      newComponent := ← one "new_component" s.newComponent
      newModule := ← one "new_module" s.newModule
      guards := ← many "guards" s.guards
      extensions := ← many "extensions" s.extensions
      exclude := ← many "exclude" s.exclude }

/-- The text of a JSON string. -/
def jsonText? : Json → Option String
  | .string written => Json.textOf? written
  | _ => none

/-- The texts of a JSON array of strings. -/
def jsonTexts? : Json → Option (List String)
  | .array items => items.mapM jsonText?
  | _ => none

/-- The spec that a JSON value describes. -/
def ofJson? : Json → Option Spec
  | .object fields => do
      let fields ← fields.mapM fun (key, j) => do return (← Json.textOf? key, j)
      ofFields? jsonText? jsonTexts? fields
  | .array items =>
      if fieldNames.length < items.length then none
      else ofFields? jsonText? jsonTexts? (fieldNames.zip items)
  | _ => none

/-- The spec that a YAML text describes. -/
def ofYaml? (t : Text) : Option Spec := do
  let d ← Yaml.Document.ofText? t
  ofFields? d.text? d.texts? (← d.fields?)

/-- Whether a file is read as YAML only. -/
def isYamlFile (p : Path) : Bool := p.extension? == some "yaml" || p.extension? == some "yml"

/-- The spec that the text of a file describes. -/
def ofFile? (p : Path) (t : Text) : Option Spec :=
  if isYamlFile p then ofYaml? t
  else ((Json.read? t).bind ofJson?).orElse fun _ => ofYaml? t

/-! ## Loading -/

/-- Why a spec file cannot be used. -/
inductive LoadError where
  | unreadable (p : Path) (e : FileError)
  | notYaml
  | notJsonOrYaml
  | faulty (f : Fault)
deriving DecidableEq

def LoadError.message : LoadError → String
  | .unreadable p e =>
      "invalid migration spec: failed to read " ++ p.text ++ ": " ++ e.message
  | .notYaml => "invalid migration spec: failed to parse YAML: the text is no spec"
  | .notJsonOrYaml =>
      "invalid migration spec: failed to parse spec (tried both JSON and YAML): the text is no spec"
  | .faulty f => "invalid migration spec: " ++ f.message

/-- The spec that the text of a file describes, if it can be used. -/
def ofFile (p : Path) (t : Text) : Except LoadError Spec :=
  match ofFile? p t with
  | none => .error (if isYamlFile p then .notYaml else .notJsonOrYaml)
  | some s =>
      match s.fault? with
      | some f => .error (.faulty f)
      | none => .ok s

/-- The spec in a file. -/
def load (p : Path) : Attempt LoadError Spec := do
  let t ← Attempt.orFail (Action.readText p) (.unreadable p)
  MonadExcept.ofExcept (ofFile p t)

end Spec

end Rewrap
