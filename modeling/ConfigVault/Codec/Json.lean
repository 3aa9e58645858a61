import ConfigVault.Codec.Basic

/-!
# JSON values in documents

Some parts of a record may hold any JSON value.  Documents can say more than JSON: keys that are no
strings, tags of one's own and integers beyond 64 bits are refused, and numbers that JSON does not
have become null.  Members are kept in the order of their names, and of two members with the same
name the later wins.
-/

namespace ConfigVault.Codec

open ConfigVault.Yaml

namespace AnyJson

/-- What any JSON value can be. -/
def expected : String := "any valid JSON value"

/-- The JSON value of an integer. -/
def ofInt (i : Int) : Except Mismatch Json :=
  if isNarrow i then .ok (.int i) else .error (.badContent "JSON number out of range")

/-- The JSON value of a floating point number. -/
def ofFloat : ExtendedFloat → Json
  | .finite x => .float x
  | _ => .null

/-- The JSON value of a scalar. -/
def ofMeaning (text : String) : Meaning → Except Mismatch Json
  | .null => .ok .null
  | .bool b => .ok (.bool b)
  | .int i => ofInt i
  | .float x => .ok (ofFloat x)
  | .string => .ok (.string text)

/-- What is wanted of a key: the first one decides that there is an object at all. -/
def keyText (first : Bool) : String :=
  if first then "a string key" else "a string"

/-- Adds a member to those read so far. -/
def addMember (read : Place → Node → Reading Json) (p : Place) (ms : List (String × Json))
    (k v : Node) : Reading (List (String × Json)) := do
  let key ← textOfNode (keyText ms.isEmpty) p k
  let value ← read (p.value k) v
  pure (SortedEntries.insert key value ms)

/-- Reads a node that is no alias, given a reader for its parts. -/
def ofContent (read : Place → Node → Reading Json) (p : Place) (node : Node) : Reading Json :=
  p.locate node.mark <|
    if (ownTagOf? node).isSome then mismatch (.invalidType .tagged expected)
    else
      match node with
      | .scalar _ props style text =>
        Value.lift ((scalarMeaning false props.tag style text).bind (ofMeaning text))
      | .sequence m _ items => do
        let inner ← p.enter m
        .array <$> inner.items read 0 items
      | .mapping m _ entries => do
        let inner ← p.enter m
        .object <$> Place.entries (addMember read inner) [] entries
      | _ => p.cut

/-- Reads a node, given a reader for its parts. -/
def ofNode (read : Place → Node → Reading Json) (p : Place) (node : Node) : Reading Json :=
  match node with
  | .alias m anchor => p.locate m do ofContent read p (← p.follow anchor)
  | .cut => p.cut
  | node => ofContent read p node

/-- Reads a node whose collections are nested no deeper than this. -/
def readNested : (depth : Nat) → Place → Node → Reading Json
  | 0 => ofNode fun p _ => p.cut
  | depth + 1 => ofNode (readNested depth)

mutual

/-- The JSON form of a value. -/
def ofValue : Value → Except Mismatch Json
  | .null => .ok .null
  | .bool b => .ok (.bool b)
  | .int i => ofInt i
  | .float x => .ok (ofFloat x)
  | .string s => .ok (.string s)
  | .sequence vs => (ofItems vs).map .array
  | .mapping es => (ofEntries [] es).map .object
  | .tagged .. => .error (.invalidType .tagged expected)

/-- The JSON form of items. -/
def ofItems : List Value → Except Mismatch (List Json)
  | [] => .ok []
  | v :: vs => do
    let x ← ofValue v
    let xs ← ofItems vs
    pure (x :: xs)

/-- The JSON form of entries, after the members before them. -/
def ofEntries (ms : List (String × Json)) : List (Value × Value) →
    Except Mismatch (List (String × Json))
  | [] => .ok ms
  | (k, v) :: es => do
    let key ← textOfValue (keyText ms.isEmpty) k
    let value ← ofValue v
    ofEntries (SortedEntries.insert key value ms) es

end

end AnyJson

/-- Any JSON value. -/
def json : Codec Json where
  ofNode p node := AnyJson.readNested p.depth p node
  ofValue := AnyJson.ofValue
  toJson := id

end ConfigVault.Codec
