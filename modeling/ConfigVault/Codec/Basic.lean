import ConfigVault.Json.Basic
import ConfigVault.SortedMap
import ConfigVault.StringTable
import ConfigVault.Yaml.Value

/-!
# Codecs

A codec ties a type to its written form.  It can read a value in two ways and write it in one:

* `ofNode` reads a document directly and **leniently**: where a string is wanted any scalar will
  do, whatever its text might mean elsewhere;
* `ofValue` reads a value **strictly**: each scalar has its meaning already, and only strings are
  strings;
* `toJson` gives the tree that both text formats print.

The codecs here are those of single values, lists, maps and choices.  Records are put together from
them in `ConfigVault.Codec.Record`.
-/

namespace ConfigVault

open ConfigVault.Yaml ConfigVault.Codec

/-- The written form of a type. -/
structure Codec (α : Type) where
  ofNode : Place → Node → Reading α
  ofValue : Value → Except Mismatch α
  toJson : α → Json

namespace Codec

/-- The mismatch of a value that is not what was expected. -/
def unexpectedValue {α : Type} (expected : String) (v : Value) : Except Mismatch α :=
  .error (.invalidType v.found expected)

/-! ## Scalars -/

/-- The text of a scalar. -/
def textOfNode (expected : String) (p : Place) (node : Node) : Reading String :=
  p.visit node fun
    | .scalar _ _ _ text => pure text
    | node => mismatch (unexpected expected node)

/-- The text of a string. -/
def textOfValue (expected : String) (v : Value) : Except Mismatch String :=
  match v.untagged with
  | .string s => .ok s
  | v => unexpectedValue expected v

/-- A string. -/
def string : Codec String where
  ofNode := textOfNode "a string"
  ofValue := textOfValue "a string"
  toJson := .string

/-- A scalar may be read by its text: it is plain, or literal with the standard tag of its type. -/
def isReadable (tag : String) (props : Properties) (style : ScalarStyle) : Bool :=
  style == .plain || (style == .literal && props.tag == some (standardTag tag))

/-- A truth value. -/
def bool : Codec Bool where
  ofNode p node := p.visit node fun
    | .scalar m props style text =>
      match if isReadable "bool" props style then bool? text else none with
      | some b => pure b
      | none => mismatch (unexpected "a boolean" (.scalar m props style text))
    | node => mismatch (unexpected "a boolean" node)
  ofValue v :=
    match v.untagged with
    | .bool b => .ok b
    | v => unexpectedValue "a boolean" v
  toJson := .bool

/-- A signed integer of 64 bits. -/
def isInt64 (i : Int) : Bool :=
  -0x8000000000000000 ≤ i && i < 0x8000000000000000

/-- An integer of 64 bits, with its sign. -/
def int64 : Codec Int where
  ofNode p node := p.visit node fun
    | .scalar m props style text =>
      match (if isReadable "int" props style then integer? text.toList else none).filter isInt64
        with
      | some i => pure i
      | none => mismatch (unexpected "i64" (.scalar m props style text))
    | node => mismatch (unexpected "i64" node)
  ofValue v :=
    match v.untagged with
    | .int i =>
      if isInt64 i then .ok i else .error (.invalidValue (.integer i) "i64")
    | v => unexpectedValue "i64" v
  toJson := .int

/-- A value that is written as a string of a certain form. -/
def ofText {α : Type} (expected : String) (parse : String → Except Mismatch α)
    (print : α → String) : Codec α where
  ofNode p node := p.visit node fun
    | .scalar _ _ _ text => Value.lift (parse text)
    | node => mismatch (unexpected expected node)
  ofValue v := do parse (← textOfValue expected v)
  toJson x := .string (print x)

/-! ## Absence -/

/-- A plain scalar that stands for no value. -/
def isAbsent (tag : Option (List UInt8)) (text : String) : Except Mismatch Bool :=
  match tag with
  | none => .ok (text.isEmpty || isNullText text)
  | some t =>
    if t = standardTag "null" then
      if isNullText text then .ok true else .error (.invalidValue (.string text) "null")
    else .ok false

/-- The node that an alias refers to, or the node itself, without a location of its own. -/
def target (p : Place) (node : Node) : Reading Node :=
  match node with
  | .alias _ anchor => p.follow anchor
  | .cut => p.cut
  | node => pure node

/-- Reads a value that may be absent. -/
def unlessAbsent {α : Type} (absent : α) (read : Place → Node → Reading α) (p : Place)
    (node : Node) : Reading α := do
  let node ← target p node
  match node with
  | .scalar _ props .plain text =>
    match isAbsent props.tag text with
    | .error m => mismatch m
    | .ok true => pure absent
    | .ok false => read p node
  | node => read p node

/-- A value that may be null. -/
def option {α : Type} (c : Codec α) : Codec (Option α) where
  ofNode := unlessAbsent none fun p node => some <$> c.ofNode p node
  ofValue
    | .null => .ok none
    | v => some <$> c.ofValue v
  toJson x := x.elim .null c.toJson

/-! ## Collections -/

/-- Reads the items of a sequence; a plain scalar without text stands for none. -/
def itemsOfNode {α : Type} (read : Place → Node → Reading α) (p : Place) (node : Node) :
    Reading (List α) :=
  p.visit node fun
    | .sequence m _ items => do
      let inner ← p.enter m
      inner.items read 0 items
    | .scalar m props style text =>
      if isEmptyPlain style text then pure []
      else mismatch (unexpected "a sequence" (.scalar m props style text))
    | node => mismatch (unexpected "a sequence" node)

/-- A list. -/
def list {α : Type} (c : Codec α) : Codec (List α) where
  ofNode := itemsOfNode c.ofNode
  ofValue v :=
    match v.untagged with
    | .sequence vs => vs.mapM c.ofValue
    | .null => .ok []
    | v => unexpectedValue "a sequence" v
  toJson xs := .array (xs.map c.toJson)

/-- Reads the entries of a mapping; a plain scalar without text stands for none.  `step` is given
the place inside the mapping. -/
def entriesOfNode {σ : Type} (expected : String) (init : σ)
    (step : Place → σ → Node → Node → Reading σ) (p : Place) (node : Node) : Reading σ :=
  p.visit node fun
    | .mapping m _ entries => do
      let inner ← p.enter m
      Place.entries (step inner) init entries
    | .scalar m props style text =>
      if isEmptyPlain style text then pure init
      else mismatch (unexpected expected (.scalar m props style text))
    | node => mismatch (unexpected expected node)

/-- The entries of a mapping value; null has none. -/
def entriesOfValue (expected : String) (v : Value) : Except Mismatch (List (Value × Value)) :=
  match v.untagged with
  | .mapping es => .ok es
  | .null => .ok []
  | v => unexpectedValue expected v

/-- A map from strings.  `insert` decides where an entry goes and `entries` lists them. -/
def mapWith {α μ : Type} (c : Codec α) (empty : μ) (insert : μ → String → α → μ)
    (entries : μ → List (String × α)) : Codec μ where
  ofNode := entriesOfNode "a map" empty fun p es k v => do
    let key ← string.ofNode p k
    let value ← c.ofNode (p.value k) v
    pure (insert es key value)
  ofValue v := do
    let es ← entriesOfValue "a map" v
    es.foldlM (fun es (k, v) => do
      let key ← string.ofValue k
      let value ← c.ofValue v
      pure (insert es key value)) empty
  toJson m := .object ((entries m).map fun e => (e.1, c.toJson e.2))

/-- A map from strings that is written in the order of its keys. -/
def sortedMap {α : Type} (c : Codec α) : Codec (SortedMap α) :=
  mapWith c SortedMap.empty SortedMap.insert SortedMap.entries

/-- A map between strings that is written in whatever order it lists its entries. -/
def stringTable : Codec StringTable :=
  mapWith string StringTable.empty StringTable.insert StringTable.entries

/-! ## Choices -/

/-- The value of a name. -/
def choiceOf {α : Type} (names : List (String × α)) (name : String) : Except Mismatch α :=
  match names.lookup name with
  | some x => .ok x
  | none => .error (.unknownChoice name (names.map Prod.fst))

/-- Refuses a node behind a tag that has anything to say besides it. -/
def nothingElse (p : Place) (node : Node) : Reading Unit :=
  p.locate node.mark <|
    match node with
    | .scalar _ _ style text =>
      if style = .plain ∧ (text.isEmpty ∨ isNullText text) then pure ()
      else mismatch (.invalidValue (.string text) "null")
    | node => mismatch (unexpected "unit" node)

/-- A tag of its own on a node. -/
def ownTagOf? : Node → Option String
  | .scalar _ props .. => ownTag? props.tag
  | .sequence _ props _ => ownTag? props.tag
  | .mapping _ props _ => ownTag? props.tag
  | _ => none

/-- Reads a choice from a node that is no alias: its tag, or its text if it has none.  An unknown
tag is located around the node. -/
def choiceOfContent {α : Type} (names : List (String × α)) (p : Place) (node : Node) :
    Reading α := do
  match ownTagOf? node with
  | some tag =>
    let x ← Value.lift (choiceOf names tag)
    nothingElse p node
    pure x
  | none =>
    p.locate node.mark <|
      match node with
      | .scalar _ _ _ text => Value.lift (choiceOf names text)
      | node => mismatch (unexpected "a YAML tag starting with '!'" node)

/-- One of several names. -/
def choice {α : Type} (names : List (String × α)) (nameOf : α → String) : Codec α where
  ofNode p node :=
    match node with
    | .alias m anchor => p.locate m do choiceOfContent names p (← p.follow anchor)
    | .cut => p.cut
    | node => choiceOfContent names p node
  ofValue
    | .tagged tag content => do
      let x ← choiceOf names tag
      match content with
      | .null => .ok x
      | v => unexpectedValue "unit" v
    | .string name => choiceOf names name
    | v => unexpectedValue "a Value::Tagged enum" v
  toJson x := .string (nameOf x)

end Codec

end ConfigVault
