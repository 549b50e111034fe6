import Rewrap.Yaml.Event

/-! # Documents

A YAML document that holds one mapping. Values are taken from it by the kind that is expected: any
scalar is a text, whatever its style and tag. An alias stands for the node that had its anchor, or
for nothing at all if there is no such anchor before it. -/

namespace Rewrap.Yaml

/-- An event of a single document. An alias refers to an anchor by its number. -/
inductive Item where
  | alias (target : Nat)
  | scalar (text : Text) (plain : Bool)
  | sequenceStart
  | mappingStart
  | stop
deriving DecidableEq

/-- The items of a document, and the place of each numbered anchor, the latest first. -/
structure Document where
  items : List Item
  places : List (Nat × Nat)

namespace Document

/-- Numbers the anchors from `place` on. A name that is used again takes the next number without
using it up. -/
def number (names : List (Text × Nat)) (places : List (Nat × Nat)) (place : Nat) :
    List Event → Option (List Item × List (Nat × Nat))
  | [] => some ([], places)
  | event :: events =>
      let count := ((names.map Prod.fst).eraseDups).length
      let add (anchor : Option Text) (item : Item) :=
        match anchor with
        | none => (number names places (place + 1) events).map fun (is, ps) => (item :: is, ps)
        | some name =>
            (number ((name, count) :: names) ((count, place) :: places) (place + 1) events).map
              fun (is, ps) => (item :: is, ps)
      match event with
      | .alias name =>
          match names.lookup name with
          | some target => add none (.alias target)
          | none => none
      | .scalar anchor t plain => add anchor (.scalar t plain)
      | .sequenceStart anchor => add anchor .sequenceStart
      | .mappingStart anchor => add anchor .mappingStart
      | .sequenceEnd | .mappingEnd => add none .stop
      | .documentStart | .documentEnd => none

/-- The only document of a text; a text without one counts as an empty mapping. -/
def ofText? (t : Text) : Option Document := do
  match ← events? t with
  | [] => return ⟨[.mappingStart, .stop], []⟩
  | .documentStart :: events =>
      if events.getLast? == some .documentEnd then
        let (items, places) ← number [] [] 0 events.dropLast
        return ⟨items, places⟩
      else none
  | _ => none

/-- The items from the node on that an alias stands for. -/
def target (d : Document) (i : Nat) : List Item :=
  match d.places.lookup i with
  | some place => d.items.drop place
  | none => []

/-- The items from a node on, where an alias is replaced by its node. -/
def follow (d : Document) : List Item → List Item
  | .alias i :: _ => d.target i
  | items => items

/-- The text of a node that comes first. -/
def text? (d : Document) (items : List Item) : Option String :=
  match d.follow items with
  | .scalar t _ :: _ => some (String.ofList t)
  | _ => none

/-- The texts up to the end of a sequence. -/
def textsUntilStop (d : Document) : List Item → Option (List String)
  | [] => none
  | .stop :: _ => some []
  | item :: items => do return (← d.text? [item]) :: (← d.textsUntilStop items)

/-- The texts of a sequence that comes first; an empty plain scalar is an empty sequence. -/
def texts? (d : Document) (items : List Item) : Option (List String) :=
  match d.follow items with
  | .sequenceStart :: items => d.textsUntilStop items
  | .scalar [] true :: _ => some []
  | _ => none

/-- The items after a node that comes first, of which `depth` collections are open. -/
def afterNode (depth : Nat) : List Item → List Item
  | [] => []
  | .sequenceStart :: items | .mappingStart :: items => afterNode (depth + 1) items
  | .stop :: items => if depth ≤ 1 then items else afterNode (depth - 1) items
  | _ :: items => if depth == 0 then items else afterNode depth items

/-- The keys and values up to the end of a mapping, of which there are at most `n`. A value is given
by the items from it on. -/
def fieldsUntilStop (d : Document) : Nat → List Item → Option (List (String × List Item))
  | 0, _ => none
  | _ + 1, .stop :: _ => some []
  | n + 1, items => do
      let key ← d.text? (items.take 1)
      let value := items.drop 1
      return (key, value) :: (← d.fieldsUntilStop n (afterNode 0 value))

/-- The keys and values of the document; an empty plain scalar is an empty mapping. -/
def fields? (d : Document) : Option (List (String × List Item)) :=
  match d.follow d.items with
  | .mappingStart :: items => d.fieldsUntilStop items.length items
  | .scalar [] true :: _ => some []
  | _ => none

end Document

end Rewrap.Yaml
