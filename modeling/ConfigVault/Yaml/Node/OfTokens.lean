import ConfigVault.Yaml.Node

/-!
# From tokens to nodes

Tokens determine a node by looking one token ahead.  Whatever goes wrong, the part of the node read
so far is kept: a result (`Parsed`) always has a value, and beside it either the tokens that follow
or the fault that cut the value short.

Anchors are numbered as they appear, by how many different anchors there were before.  An anchor
that appears again changes its number but not that count, so two anchors can share a number, and
the later one then takes it over.
-/

namespace ConfigVault.Yaml

/-- Why a document ends early. -/
inductive DocumentFault where
  | malformed (error : SyntaxError)
  | unknownAnchor (mark : Mark)
  | endOfStream
  deriving DecidableEq, Repr

/-- The anchors so far, each with its number, latest first. -/
abbrev Anchors := List (String × Nat)

/-- The anchors after one more. -/
def Anchors.add (anchors : Anchors) (name : String) : Anchors :=
  (name, anchors.length) :: anchors.filter (·.1 != name)

/-- What parsing needs to know besides the tokens. -/
structure Grammar where
  /-- What the tag handles stand for. -/
  handles : List (String × List UInt8)
  /-- Why there are no more tokens. -/
  stop : DocumentFault
  deriving Repr

/-- Part of a document, the anchors up to its end, and what follows or else what went wrong. -/
structure Parsed (α : Type) where
  value : α
  anchors : Anchors
  rest : Except DocumentFault (List Token)

namespace Parsed

/-- The nodes that begin with this one; none follow it if it went wrong. -/
def andMore (p : Parsed Node) (more : Anchors → List Token → Parsed (List Node)) :
    Parsed (List Node) :=
  match p.rest with
  | .error e => ⟨[p.value], p.anchors, .error e⟩
  | .ok ts =>
    let q := more p.anchors ts
    ⟨p.value :: q.value, q.anchors, q.rest⟩

/-- The entry with this key; its value is cut off if the key went wrong. -/
def andValue (key : Parsed Node) (value : Anchors → List Token → Parsed Node) :
    Parsed (Node × Node) :=
  match key.rest with
  | .error e => ⟨(key.value, .cut), key.anchors, .error e⟩
  | .ok ts =>
    let v := value key.anchors ts
    ⟨(key.value, v.value), v.anchors, v.rest⟩

/-- The entries that begin with this one; none follow it if it went wrong. -/
def andEntries (p : Parsed (Node × Node))
    (more : Anchors → List Token → Parsed (List (Node × Node))) : Parsed (List (Node × Node)) :=
  match p.rest with
  | .error e => ⟨[p.value], p.anchors, .error e⟩
  | .ok ts =>
    let q := more p.anchors ts
    ⟨p.value :: q.value, q.anchors, q.rest⟩

/-- The same with another value. -/
def map {α β : Type} (f : α → β) (p : Parsed α) : Parsed β :=
  ⟨f p.value, p.anchors, p.rest⟩

end Parsed

namespace Node

/-- A node that is cut off at once. -/
def cutOff (anchors : Anchors) (fault : DocumentFault) : Parsed Node :=
  ⟨.cut, anchors, .error fault⟩

/-- Nodes that end with a cut. -/
def itemsCutOff (anchors : Anchors) (fault : DocumentFault) : Parsed (List Node) :=
  ⟨[.cut], anchors, .error fault⟩

/-- Entries that end with a cut. -/
def entriesCutOff (anchors : Anchors) (fault : DocumentFault) : Parsed (List (Node × Node)) :=
  ⟨[(.cut, .cut)], anchors, .error fault⟩

/-- An error at a token, in a construct that began at a mark. -/
def faultAt (t : Token) (problem : Problem) (context : Context) (began : Mark) : DocumentFault :=
  .malformed (.malformed problem t.mark (some (context, began)))

/-- The properties in front of a node, where they begin, and its first token. -/
structure Head where
  mark : Mark
  anchor : Option String
  tag : Option (List UInt8)
  first : Token
  rest : List Token

/-- The tag that a tag token stands for. -/
def resolveTag (g : Grammar) (began : Mark) (handle : String) (suffix : List UInt8) (mark : Mark) :
    Except DocumentFault (List UInt8) :=
  if handle.isEmpty then .ok suffix
  else
    match g.handles.lookup handle with
    | some stem => .ok (stem ++ suffix)
    | none => .error (.malformed (.malformed .undefinedTagHandle mark (some (.node, began))))

/-- The properties that the tokens begin with: an anchor and a tag in either order. -/
def head (g : Grammar) : List Token → Except DocumentFault Head
  | [] => .error g.stop
  | ⟨.anchor a, m⟩ :: ts =>
    match ts with
    | [] => .error g.stop
    | ⟨.tag _ _, _⟩ :: [] => .error g.stop
    | ⟨.tag h s, n⟩ :: t :: ts => (resolveTag g m h s n).map fun tag => ⟨m, a, tag, t, ts⟩
    | t :: ts => .ok ⟨m, a, none, t, ts⟩
  | ⟨.tag h s, m⟩ :: ts =>
    match ts with
    | [] => .error g.stop
    | ⟨.anchor _, _⟩ :: [] => .error g.stop
    | ⟨.anchor a, _⟩ :: t :: ts => (resolveTag g m h s m).map fun tag => ⟨m, a, tag, t, ts⟩
    | t :: ts => (resolveTag g m h s m).map fun tag => ⟨m, none, tag, t, ts⟩
  | t :: ts => .ok ⟨t.mark, none, none, t, ts⟩

/-- The properties of a node, and the anchors once it has begun. -/
def Head.register (h : Head) (anchors : Anchors) : Properties × Anchors :=
  match h.anchor with
  | none => (⟨none, h.tag⟩, anchors)
  | some name => (⟨some anchors.length, h.tag⟩, anchors.add name)

/-- The tag of a scalar with content: a lone exclamation mark is none. -/
def scalarTag (tag : Option (List UInt8)) : Option (List UInt8) :=
  if tag = some [0x21] then none else tag

/-- Nothing but the end of a flow entry follows. -/
def endsFlowEntry (closing : Token.Kind) (t : Token) : Bool :=
  t.kind == .flowEntry || t.kind == closing

/-- Nothing but the rest of a block mapping follows. -/
def endsBlockPart (t : Token) : Bool :=
  t.kind == .key || t.kind == .value || t.kind == .blockEnd

/-- The mapping with this one entry; a mapping without brackets ends where the next token begins,
so there has to be one. -/
def pairMapping (g : Grammar) (began : Mark) (p : Parsed (Node × Node)) : Parsed Node :=
  match p.rest with
  | .ok [] => ⟨.mapping began .none [p.value, (.cut, .cut)], p.anchors, .error g.stop⟩
  | rest => ⟨.mapping began .none [p.value], p.anchors, rest⟩

/-- The value of a flow entry without a colon. -/
def missingValue (g : Grammar) (anchors : Anchors) : List Token → Parsed Node
  | [] => cutOff anchors g.stop
  | t :: ts => ⟨empty t.mark, anchors, .ok (t :: ts)⟩

mutual

/-- The node that the tokens begin with.  Block collections are understood only in block context,
and a block sequence without indentation only as a part of a block mapping. -/
def ofTokens (g : Grammar) : (fuel : Nat) → (block inMapping : Bool) → Anchors → List Token →
    Parsed Node
  | 0, _, _, anchors, _ => cutOff anchors g.stop
  | _ + 1, _, _, anchors, ⟨.alias name, m⟩ :: ts =>
    match anchors.lookup name with
    | some n => ⟨.alias m n, anchors, .ok ts⟩
    | none => cutOff anchors (.unknownAnchor m)
  | fuel + 1, block, inMapping, anchors, ts =>
    match head g ts with
    | .error e => cutOff anchors e
    | .ok h =>
      let (props, after) := h.register anchors
      let t := h.first
      match t.kind, block with
      | .scalar text style, _ =>
        ⟨.scalar h.mark { props with tag := scalarTag props.tag } style text, after, .ok h.rest⟩
      | .flowSequenceStart, _ =>
        (flowItems g fuel t.mark true after h.rest).map (.sequence h.mark props)
      | .flowMappingStart, _ =>
        (flowEntries g fuel t.mark true after h.rest).map (.mapping h.mark props)
      | .blockSequenceStart, true =>
        (blockItems g fuel t.mark after h.rest).map (.sequence h.mark props)
      | .blockMappingStart, true =>
        (blockEntries g fuel t.mark after h.rest).map (.mapping h.mark props)
      | kind, _ =>
        if inMapping && kind == .blockEntry then
          (flushItems g fuel after (t :: h.rest)).map (.sequence h.mark props)
        else if h.anchor.isSome || h.tag.isSome then
          ⟨.scalar h.mark props .plain "", after, .ok (t :: h.rest)⟩
        else
          cutOff anchors
            (faultAt t .expectedNodeContent (if block then .blockNode else .flowNode) h.mark)

/-- The items of a block sequence, up to and with its end. -/
def blockItems (g : Grammar) : (fuel : Nat) → Mark → Anchors → List Token → Parsed (List Node)
  | 0, _, anchors, _ => itemsCutOff anchors g.stop
  | _ + 1, _, anchors, [] => itemsCutOff anchors g.stop
  | fuel + 1, began, anchors, t :: ts =>
    match t.kind with
    | .blockEntry =>
      match ts with
      | [] => itemsCutOff anchors g.stop
      | u :: us =>
        let item :=
          if u.kind == .blockEntry || u.kind == .blockEnd then
            ⟨empty t.after, anchors, .ok (u :: us)⟩
          else ofTokens g fuel true false anchors (u :: us)
        item.andMore fun anchors ts => blockItems g fuel began anchors ts
    | .blockEnd => ⟨[], anchors, .ok ts⟩
    | _ => itemsCutOff anchors (faultAt t .expectedBlockEntry .blockCollection began)

/-- The items of a block sequence that is no further indented than the mapping it belongs to.
Nothing marks its end. -/
def flushItems (g : Grammar) : (fuel : Nat) → Anchors → List Token → Parsed (List Node)
  | 0, anchors, _ => itemsCutOff anchors g.stop
  | _ + 1, anchors, [] => itemsCutOff anchors g.stop
  | fuel + 1, anchors, t :: ts =>
    match t.kind with
    | .blockEntry =>
      match ts with
      | [] => itemsCutOff anchors g.stop
      | u :: us =>
        let item :=
          if u.kind == .blockEntry || endsBlockPart u then
            ⟨empty t.after, anchors, .ok (u :: us)⟩
          else ofTokens g fuel true false anchors (u :: us)
        item.andMore fun anchors ts => flushItems g fuel anchors ts
    | _ => ⟨[], anchors, .ok (t :: ts)⟩

/-- The entries of a block mapping, up to and with its end. -/
def blockEntries (g : Grammar) :
    (fuel : Nat) → Mark → Anchors → List Token → Parsed (List (Node × Node))
  | 0, _, anchors, _ => entriesCutOff anchors g.stop
  | _ + 1, _, anchors, [] => entriesCutOff anchors g.stop
  | fuel + 1, began, anchors, t :: ts =>
    match t.kind with
    | .key =>
      match ts with
      | [] => entriesCutOff anchors g.stop
      | u :: us =>
        let key :=
          if endsBlockPart u then ⟨empty t.after, anchors, .ok (u :: us)⟩
          else ofTokens g fuel true true anchors (u :: us)
        (key.andValue fun anchors ts => blockValue g fuel anchors ts).andEntries
          fun anchors ts => blockEntries g fuel began anchors ts
    | .blockEnd => ⟨[], anchors, .ok ts⟩
    | _ => entriesCutOff anchors (faultAt t .expectedKey .blockMapping began)

/-- The value of a block mapping entry; it may be missing. -/
def blockValue (g : Grammar) : (fuel : Nat) → Anchors → List Token → Parsed Node
  | 0, anchors, _ => cutOff anchors g.stop
  | _ + 1, anchors, [] => cutOff anchors g.stop
  | fuel + 1, anchors, t :: ts =>
    match t.kind with
    | .value =>
      match ts with
      | [] => cutOff anchors g.stop
      | u :: us =>
        if endsBlockPart u then ⟨empty t.after, anchors, .ok (u :: us)⟩
        else ofTokens g fuel true true anchors (u :: us)
    | _ => ⟨empty t.mark, anchors, .ok (t :: ts)⟩

/-- The items of a flow sequence, up to and with its closing bracket. -/
def flowItems (g : Grammar) :
    (fuel : Nat) → Mark → (first : Bool) → Anchors → List Token → Parsed (List Node)
  | 0, _, _, anchors, _ => itemsCutOff anchors g.stop
  | _ + 1, _, _, anchors, [] => itemsCutOff anchors g.stop
  | fuel + 1, began, first, anchors, t :: ts =>
    if t.kind == .flowSequenceEnd then ⟨[], anchors, .ok ts⟩
    else if first then flowItem g fuel began anchors (t :: ts)
    else if t.kind == .flowEntry then flowItem g fuel began anchors ts
    else itemsCutOff anchors (faultAt t .expectedSequenceSeparator .flowSequence began)

/-- An item of a flow sequence and those after it, unless the sequence ends here. -/
def flowItem (g : Grammar) : (fuel : Nat) → Mark → Anchors → List Token → Parsed (List Node)
  | 0, _, anchors, _ => itemsCutOff anchors g.stop
  | _ + 1, _, anchors, [] => itemsCutOff anchors g.stop
  | fuel + 1, began, anchors, t :: ts =>
    match t.kind with
    | .flowSequenceEnd => ⟨[], anchors, .ok ts⟩
    | .key =>
      (pairMapping g t.mark (flowPair g fuel anchors ts)).andMore
        fun anchors ts => flowItems g fuel began false anchors ts
    | _ =>
      (ofTokens g fuel false false anchors (t :: ts)).andMore
        fun anchors ts => flowItems g fuel began false anchors ts

/-- The one entry of a mapping that is written as an item of a flow sequence. -/
def flowPair (g : Grammar) : (fuel : Nat) → Anchors → List Token → Parsed (Node × Node)
  | 0, anchors, _ => ⟨(.cut, .cut), anchors, .error g.stop⟩
  | _ + 1, anchors, [] => ⟨(.cut, .cut), anchors, .error g.stop⟩
  | fuel + 1, anchors, t :: ts =>
    let key :=
      if t.kind == .value || endsFlowEntry .flowSequenceEnd t then
        ⟨empty t.after, anchors, .ok ts⟩
      else ofTokens g fuel false false anchors (t :: ts)
    key.andValue fun anchors ts => flowValue g fuel .flowSequenceEnd anchors ts

/-- The value of a flow entry; it may be missing. -/
def flowValue (g : Grammar) :
    (fuel : Nat) → (closing : Token.Kind) → Anchors → List Token → Parsed Node
  | 0, _, anchors, _ => cutOff anchors g.stop
  | _ + 1, _, anchors, [] => cutOff anchors g.stop
  | fuel + 1, closing, anchors, t :: ts =>
    match t.kind with
    | .value =>
      match ts with
      | [] => cutOff anchors g.stop
      | u :: us =>
        if endsFlowEntry closing u then ⟨empty u.mark, anchors, .ok (u :: us)⟩
        else ofTokens g fuel false false anchors (u :: us)
    | _ => ⟨empty t.mark, anchors, .ok (t :: ts)⟩

/-- The entries of a flow mapping, up to and with its closing brace. -/
def flowEntries (g : Grammar) :
    (fuel : Nat) → Mark → (first : Bool) → Anchors → List Token → Parsed (List (Node × Node))
  | 0, _, _, anchors, _ => entriesCutOff anchors g.stop
  | _ + 1, _, _, anchors, [] => entriesCutOff anchors g.stop
  | fuel + 1, began, first, anchors, t :: ts =>
    if t.kind == .flowMappingEnd then ⟨[], anchors, .ok ts⟩
    else if first then flowEntry g fuel began anchors (t :: ts)
    else if t.kind == .flowEntry then flowEntry g fuel began anchors ts
    else entriesCutOff anchors (faultAt t .expectedMappingSeparator .flowMapping began)

/-- An entry of a flow mapping and those after it, unless the mapping ends here. -/
def flowEntry (g : Grammar) :
    (fuel : Nat) → Mark → Anchors → List Token → Parsed (List (Node × Node))
  | 0, _, anchors, _ => entriesCutOff anchors g.stop
  | _ + 1, _, anchors, [] => entriesCutOff anchors g.stop
  | fuel + 1, began, anchors, t :: ts =>
    match t.kind with
    | .flowMappingEnd => ⟨[], anchors, .ok ts⟩
    | .key =>
      match ts with
      | [] => entriesCutOff anchors g.stop
      | u :: us =>
        let key :=
          if u.kind == .value || endsFlowEntry .flowMappingEnd u then
            ⟨empty u.mark, anchors, .ok (u :: us)⟩
          else ofTokens g fuel false false anchors (u :: us)
        (key.andValue fun anchors ts => flowValue g fuel .flowMappingEnd anchors ts).andEntries
          fun anchors ts => flowEntries g fuel began false anchors ts
    | _ =>
      ((ofTokens g fuel false false anchors (t :: ts)).andValue fun anchors ts =>
        missingValue g anchors ts).andEntries
          fun anchors ts => flowEntries g fuel began false anchors ts

end

end Node

end ConfigVault.Yaml
