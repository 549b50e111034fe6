import Rewrap.Yaml.Token

/-! # Events

The structure of a YAML text as a list of events: the beginnings and ends of its documents and
collections, its scalars and its aliases. Nodes that are left out are empty plain scalars. -/

namespace Rewrap.Yaml

/-- An event. -/
inductive Event where
  | documentStart
  | documentEnd
  | alias (name : Text)
  | scalar (anchor : Option Text) (text : Text) (plain : Bool)
  | sequenceStart (anchor : Option Text)
  | sequenceEnd
  | mappingStart (anchor : Option Text)
  | mappingEnd
deriving DecidableEq

/-- What the next tokens are read as. -/
inductive Expected where
  | document (mayBeImplicit : Bool)
  | documentContent
  | documentEnd
  | blockNode
  | blockEntry
  | indentlessEntry
  | blockKey
  | blockValue
  | flowEntry (isFirst : Bool)
  | flowPairKey
  | flowPairValue
  | flowPairEnd
  | flowKey (isFirst : Bool)
  | flowValue
  | flowEmptyValue
deriving DecidableEq

/-- How far tokens have been read: what is expected, what is expected after that, the tag handles of
the document, and the tokens that are left. -/
structure Reading where
  expected : Expected
  afterwards : List Expected
  handles : List Text
  tokens : List Token

namespace Reading

/-- An empty node, after which `e` is expected. -/
def empty (r : Reading) (e : Expected) (tokens : List Token) : Option (Event × Reading) :=
  some (.scalar none [] true, { r with expected := e, tokens })

/-- Goes on with what was expected before. -/
def pop (r : Reading) (event : Event) (tokens : List Token) : Option (Event × Reading) :=
  match r.afterwards with
  | [] => none
  | e :: es => some (event, { r with expected := e, afterwards := es, tokens })

/-- Goes on inside a collection. -/
def enter (r : Reading) (event : Event) (e : Expected) (tokens : List Token) :
    Option (Event × Reading) :=
  some (event, { r with expected := e, tokens })

/-- The anchor, the handle of the tag and the tokens after them, in either order. -/
def properties : List Token → Option Text × Option Text × List Token
  | .anchor a :: .tag h :: ts => (some a, some h, ts)
  | .anchor a :: ts => (some a, none, ts)
  | .tag h :: .anchor a :: ts => (some a, some h, ts)
  | .tag h :: ts => (none, some h, ts)
  | ts => (none, none, ts)

/-- The handles that every document has. -/
def defaultHandles : List Text := [['!'], ['!', '!']]

/-- Reads a node. `inBlock` says whether it may be a block, and `indentless` whether it may be a
sequence whose dashes are not further in than the key before it. -/
def node (r : Reading) (inBlock indentless : Bool) : Option (Event × Reading) :=
  match r.tokens with
  | .alias name :: ts => r.pop (.alias name) ts
  | ts =>
      let (anchor, handle, ts) := properties ts
      if handle.any fun h => !h.isEmpty && !(r.handles ++ defaultHandles).contains h then none
      else
        match ts with
        | .scalar t plain :: ts => r.pop (.scalar anchor t plain) ts
        | .flowSequenceStart :: ts => r.enter (.sequenceStart anchor) (.flowEntry true) ts
        | .flowMappingStart :: ts => r.enter (.mappingStart anchor) (.flowKey true) ts
        | t :: rest =>
            if indentless && t == .blockEntry then
              r.enter (.sequenceStart anchor) .indentlessEntry ts
            else if inBlock && t == .blockSequenceStart then
              r.enter (.sequenceStart anchor) .blockEntry rest
            else if inBlock && t == .blockMappingStart then
              r.enter (.mappingStart anchor) .blockKey rest
            else if anchor.isSome || handle.isSome then r.pop (.scalar anchor [] true) ts
            else none
        | [] =>
            if anchor.isSome || handle.isSome then r.pop (.scalar anchor [] true) ts else none

/-- Reads a node after which `e` is expected, unless one of the tokens `ends` shows that it was left
out. The end of the text counts as the end of a document, which is none of them. -/
def nodeUnless (r : Reading) (tokens ends : List Token) (e : Expected) (inBlock indentless : Bool) :
    Option (Event × Reading) :=
  if tokens.head?.any ends.contains then r.empty e tokens
  else { r with tokens, afterwards := e :: r.afterwards }.node inBlock indentless

/-- The tag handles of the directives before a document, and the tokens after them. The version must
be 1.1 or 1.2 and may be given once, and so may each handle. -/
def directives (versioned : Bool) (handles : List Text) :
    List Token → Option (List Text × List Token)
  | .version major minor :: ts =>
      if versioned || major != 1 || (minor != 1 && minor != 2) then none
      else directives true handles ts
  | .tagHandle h :: ts =>
      if handles.contains h then none else directives versioned (handles ++ [h]) ts
  | ts => some (handles, ts)

/-- Reads the start of a document. -/
def document (r : Reading) (mayBeImplicit : Bool) : Option (Event × Reading) :=
  let tokens := if mayBeImplicit then r.tokens else r.tokens.dropWhile (· == .documentEnd)
  let explicit := match tokens with
    | .version .. :: _ | .tagHandle _ :: _ | .documentStart :: _ => true
    | _ => false
  if mayBeImplicit && !explicit then
    some (.documentStart, ⟨.blockNode, [.documentEnd], [], tokens⟩)
  else do
    let (handles, tokens) ← directives false [] tokens
    match tokens with
    | .documentStart :: ts =>
        some (.documentStart, ⟨.documentContent, [.documentEnd], handles, ts⟩)
    | _ => none

/-- The next event. -/
def next (r : Reading) : Option (Event × Reading) :=
  match r.expected with
  | .document mayBeImplicit => r.document mayBeImplicit
  | .documentContent =>
      match r.tokens with
      | [] | .version .. :: _ | .tagHandle _ :: _ | .documentStart :: _ | .documentEnd :: _ =>
          r.pop (.scalar none [] true) r.tokens
      | _ => r.node true false
  | .documentEnd =>
      let tokens := match r.tokens with
        | .documentEnd :: ts => ts
        | ts => ts
      some (.documentEnd, ⟨.document false, [], [], tokens⟩)
  | .blockNode => r.node true false
  | .blockEntry =>
      match r.tokens with
      | .blockEntry :: ts => r.nodeUnless ts [.blockEntry, .blockEnd] .blockEntry true false
      | .blockEnd :: ts => r.pop .sequenceEnd ts
      | _ => none
  | .indentlessEntry =>
      match r.tokens with
      | .blockEntry :: ts =>
          r.nodeUnless ts [.blockEntry, .key, .value, .blockEnd] .indentlessEntry true false
      | ts => r.pop .sequenceEnd ts
  | .blockKey =>
      match r.tokens with
      | .key :: ts => r.nodeUnless ts [.key, .value, .blockEnd] .blockValue true true
      | .blockEnd :: ts => r.pop .mappingEnd ts
      | _ => none
  | .blockValue =>
      match r.tokens with
      | .value :: ts => r.nodeUnless ts [.key, .value, .blockEnd] .blockKey true true
      | ts => r.empty .blockKey ts
  | .flowEntry isFirst =>
      match (if isFirst then r.tokens else r.tokens.drop 1), isFirst, r.tokens with
      | _, _, .flowSequenceEnd :: ts => r.pop .sequenceEnd ts
      | .key :: ts, true, _ | .key :: ts, false, .flowEntry :: _ =>
          r.enter (.mappingStart none) .flowPairKey ts
      | .flowSequenceEnd :: ts, false, .flowEntry :: _ => r.pop .sequenceEnd ts
      | ts, true, _ | ts, false, .flowEntry :: _ =>
          r.nodeUnless ts [] (.flowEntry false) false false
      | _, _, _ => none
  | .flowPairKey =>
      match r.tokens with
      | .value :: ts | .flowEntry :: ts | .flowSequenceEnd :: ts => r.empty .flowPairValue ts
      | ts => r.nodeUnless ts [] .flowPairValue false false
  | .flowPairValue =>
      match r.tokens with
      | .value :: ts => r.nodeUnless ts [.flowEntry, .flowSequenceEnd] .flowPairEnd false false
      | ts => r.empty .flowPairEnd ts
  | .flowPairEnd => r.enter .mappingEnd (.flowEntry false) r.tokens
  | .flowKey isFirst =>
      match (if isFirst then r.tokens else r.tokens.drop 1), isFirst, r.tokens with
      | _, _, .flowMappingEnd :: ts => r.pop .mappingEnd ts
      | .key :: ts, true, _ | .key :: ts, false, .flowEntry :: _ =>
          r.nodeUnless ts [.value, .flowEntry, .flowMappingEnd] .flowValue false false
      | .flowMappingEnd :: ts, false, .flowEntry :: _ => r.pop .mappingEnd ts
      | ts, true, _ | ts, false, .flowEntry :: _ => r.nodeUnless ts [] .flowEmptyValue false false
      | _, _, _ => none
  | .flowValue =>
      match r.tokens with
      | .value :: ts => r.nodeUnless ts [.flowEntry, .flowMappingEnd] (.flowKey false) false false
      | ts => r.empty (.flowKey false) ts
  | .flowEmptyValue => r.empty (.flowKey false) r.tokens

/-- Whether no document is left. -/
def atEnd (r : Reading) : Bool :=
  match r.expected with
  | .document mayBeImplicit =>
      (if mayBeImplicit then r.tokens else r.tokens.dropWhile (· == .documentEnd)).isEmpty
  | _ => false

/-- The events that are left, of which there are at most `n`. -/
def finish : Nat → Reading → Option (List Event)
  | 0, _ => none
  | n + 1, r =>
      if r.atEnd then some []
      else do
        let (event, r) ← r.next
        return event :: (← finish n r)

end Reading

/-- The events of a text, if it is well-formed. No token brings about more than three events. -/
def events? (t : Text) : Option (List Event) := do
  let tokens ← tokens? t
  Reading.finish (3 * tokens.length + 4) ⟨.document true, [], [], tokens⟩

end Rewrap.Yaml
