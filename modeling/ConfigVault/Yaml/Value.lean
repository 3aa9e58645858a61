import ConfigVault.Yaml.Scalar

/-!
# Values

A document read for its own sake: every scalar has its meaning, aliases are unfolded, and no key
occurs twice in a mapping.  A value knows no marks.  It is the basis of the strict way to read a
record, in which plain `5` is a number and never a string.
-/

namespace ConfigVault.Yaml

open ConfigVault.Codec

/-- A value of a document. -/
inductive Value where
  | null
  | bool (b : Bool)
  | int (i : Int)
  | float (x : ExtendedFloat)
  | string (s : String)
  | sequence (items : List Value)
  | mapping (entries : List (Value × Value))
  | tagged (tag : String) (content : Value)
  deriving Repr

namespace Value

/-- Equality of floating point numbers, under which the two zeros are equal. -/
def sameFloat : ExtendedFloat → ExtendedFloat → Bool
  | .finite a, .finite b => a == b || (a.isZero && b.isZero)
  | a, b => a == b

/-- The first element that a test accepts, and the others. -/
def takeFirst {α : Type} (p : α → Bool) : List α → Option (List α)
  | [] => none
  | x :: xs => if p x then some xs else (takeFirst p xs).map (x :: ·)

mutual

/-- Equality of values; the order of entries does not count. -/
def same : Value → Value → Bool
  | .null, .null => true
  | .bool a, .bool b => a == b
  | .int a, .int b => a == b
  | .float a, .float b => sameFloat a b
  | .string a, .string b => a == b
  | .sequence a, .sequence b => sameItems a b
  | .mapping a, .mapping b => sameEntries a b
  | .tagged s a, .tagged t b => s == t && same a b
  | _, _ => false

/-- Equality of items, in order. -/
def sameItems : List Value → List Value → Bool
  | [], [] => true
  | a :: as, b :: bs => same a b && sameItems as bs
  | _, _ => false

/-- Equality of entries, in any order. -/
def sameEntries : List (Value × Value) → List (Value × Value) → Bool
  | [], bs => bs.isEmpty
  | (k, v) :: as, bs =>
    match takeFirst (fun (l, w) => same k l && same v w) bs with
    | none => false
    | some bs => sameEntries as bs

end

/-- The text for a key that occurs twice. -/
def duplicateText : Value → String
  | .null => "duplicate entry with null key"
  | .bool b => "duplicate entry with key `" ++ (if b then "true" else "false") ++ "`"
  | .int i => "duplicate entry with key " ++ toString i
  | .float (.finite x) => "duplicate entry with key " ++ String.ofList x.text
  | .float (.infinite negative) =>
    "duplicate entry with key " ++ (if negative then "-.inf" else ".inf")
  | .float .nan => "duplicate entry with key .nan"
  | .string s => "duplicate entry with key " ++ Text.quote s
  | _ => "duplicate entry in YAML map"

/-- What a value was found to be. -/
def found : Value → Found
  | .null => .unit
  | .bool b => .bool b
  | .int i => .integer i
  | .float x => .float x
  | .string s => .string s
  | .sequence _ => .sequence
  | .mapping _ => .map
  | .tagged .. => .tagged

/-- The content of a tagged value; any other value itself. -/
def untagged : Value → Value
  | .tagged _ v => untagged v
  | v => v

/-- What any value can be. -/
def anyText : String := "any YAML value"

/-- The value of a scalar. -/
def ofScalar (text : String) : Meaning → Except Mismatch Value
  | .null => .ok .null
  | .bool b => .ok (.bool b)
  | .int i =>
    if isNarrow i then .ok (.int i) else .error (.invalidType (.wideInteger i) anyText)
  | .float x => .ok (.float x)
  | .string => .ok (.string text)

/-- Turns a plain failure into one of reading. -/
def lift {α : Type} : Except Mismatch α → Reading α
  | .ok x => pure x
  | .error m => mismatch m

/-- Reads a node that may have a tag of its own: the tag, and the content without it. -/
def choice (p : Place) (tagged : Bool) (m : Mark) (tag : Option (List UInt8))
    (content : Bool → Reading Value) : Reading Value :=
  match if tagged then none else ownTag? tag with
  | none => p.locate m (content tagged)
  | some name => (.tagged name ·) <$> p.locate m (content true)

/-- A reader of nodes, told whether the tag of a node was taken into account before. -/
abbrev NodeReader := Place → Bool → Node → Reading Value

/-- Adds an entry to those read so far, latest first. -/
def addEntry (p : Place) (part : NodeReader) (tagged : Bool) (es : List (Value × Value))
    (k v : Node) : Reading (List (Value × Value)) := do
  let key ← part p tagged k
  if es.any (fun e => same e.1 key) then mismatch (.badContent (duplicateText key))
  else
    let value ← part (p.value k) false v
    pure ((key, value) :: es)

/-- Reads a node that is no alias, given a reader for its parts. -/
def ofContent (part : NodeReader) : NodeReader := fun p tagged node =>
  match node with
  | .scalar m props style text =>
    choice p tagged m props.tag fun tagged =>
      lift ((scalarMeaning tagged props.tag style text).bind (ofScalar text))
  | .sequence m props items =>
    choice p tagged m props.tag fun _ => do
      let inner ← p.enter m
      .sequence <$> inner.items (fun p node => part p false node) 0 items
  | .mapping m props entries =>
    choice p tagged m props.tag fun tagged => do
      let inner ← p.enter m
      let es ← Place.entries (addEntry inner part tagged) [] entries
      pure (.mapping es.reverse)
  | _ => p.cut

/-- Reads a node, given a reader for its parts. -/
def ofNode (part : NodeReader) : NodeReader := fun p tagged node =>
  match node with
  | .alias m anchor => p.locate m do
    let target ← p.follow anchor
    ofContent part p false target
  | node => ofContent part p tagged node

/-- Reads a node whose collections are nested no deeper than this. -/
def readNested : (depth : Nat) → NodeReader
  | 0 => ofNode fun p _ _ => p.cut
  | depth + 1 => ofNode (readNested depth)

/-- Reads any document as a value. -/
def read (p : Place) (node : Node) : Reading Value :=
  readNested p.depth p false node

end Value

end ConfigVault.Yaml
