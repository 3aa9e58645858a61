import ConfigVault.Codec.Json

/-!
# Records

A record is written as a map from the names of its fields (`Record`).  A field says how its value
is written, how it is taken out of the record and put into it, whether it has to be there, and
which values are left out when the record is written (`Field`).

Reading starts from a blank record and puts in the values as they come.  Keys that name no field
are passed over.  A name that comes twice is refused, or the later value wins.
-/

namespace ConfigVault.Codec

open ConfigVault.Yaml

/-- A field of records of type `ρ`. -/
structure Field (ρ : Type) where
  name : String
  type : Type
  codec : Codec type
  get : ρ → type
  put : type → ρ → ρ
  /-- A record without the field cannot be read. -/
  required : Bool
  /-- The values that are left out. -/
  leftOut : type → Bool

namespace Field

variable {ρ : Type}

/-- The member for a field of a record, unless it is left out. -/
def member (f : Field ρ) (r : ρ) : Option (String × Json) :=
  if f.leftOut (f.get r) then none else some (f.name, f.codec.toJson (f.get r))

/-- Reads the field from a node. -/
def ofNode (f : Field ρ) (p : Place) (node : Node) (r : ρ) : Reading ρ := do
  let x ← f.codec.ofNode p node
  pure (f.put x r)

/-- Reads the field from a value. -/
def ofValue (f : Field ρ) (v : Value) (r : ρ) : Except Mismatch ρ := do
  let x ← f.codec.ofValue v
  pure (f.put x r)

end Field

/-- The fields of a type of records, in the order in which they are written. -/
structure Record (ρ : Type) where
  /-- What messages call the record. -/
  title : String
  /-- The record whose fields are all missing. -/
  blank : ρ
  /-- A field may not be given twice. -/
  rejectsRepeats : Bool
  fields : List (Field ρ)

namespace Record

variable {ρ : Type} (R : Record ρ)

/-- What messages call a key. -/
def keyText : String := "field identifier"

/-- The field with this name. -/
def field? (name : String) : Option (Field ρ) :=
  R.fields.find? fun f => f.name == name

/-- A record that is being read, and the names of the fields read so far. -/
structure Partial (ρ : Type) where
  record : ρ
  seen : List String

/-- Refuses a field that may not be given again. -/
def checkRepeat (s : Partial ρ) (name : String) : Except Mismatch Unit :=
  if R.rejectsRepeats && s.seen.contains name then .error (.duplicateField name) else .ok ()

/-- The record, unless a required field is missing. -/
def complete (s : Partial ρ) : Except Mismatch ρ :=
  match R.fields.find? fun f => f.required && !s.seen.contains f.name with
  | some f => .error (.missingField f.name)
  | none => .ok s.record

/-- Reads one entry of a mapping. -/
def stepNode (p : Place) (s : Partial ρ) (k v : Node) : Reading (Partial ρ) := do
  let name ← textOfNode keyText p k
  match R.field? name with
  | none =>
    p.ignore v
    pure s
  | some f =>
    Value.lift (R.checkRepeat s name)
    let record ← f.ofNode (p.value k) v s.record
    pure ⟨record, name :: s.seen⟩

/-- Reads one entry of a mapping value. -/
def stepValue (s : Partial ρ) (e : Value × Value) : Except Mismatch (Partial ρ) := do
  let name ← textOfValue keyText e.1
  match R.field? name with
  | none => pure s
  | some f =>
    R.checkRepeat s name
    let record ← f.ofValue e.2 s.record
    pure ⟨record, name :: s.seen⟩

/-- Reads a record from a node. -/
def ofNode (p : Place) (node : Node) : Reading ρ :=
  p.visit node fun
    | .mapping m _ entries => do
      let inner ← p.enter m
      let s ← Place.entries (R.stepNode inner) ⟨R.blank, []⟩ entries
      Value.lift (R.complete s)
    | .scalar m props style text =>
      if isEmptyPlain style text then Value.lift (R.complete ⟨R.blank, []⟩)
      else mismatch (unexpected R.title (.scalar m props style text))
    | node => mismatch (unexpected R.title node)

/-- Reads a record from a value. -/
def ofValue (v : Value) : Except Mismatch ρ := do
  let es ← entriesOfValue R.title v
  let s ← es.foldlM R.stepValue ⟨R.blank, []⟩
  R.complete s

/-- The members of a record, in order. -/
def members (r : ρ) : List (String × Json) :=
  R.fields.filterMap fun f => f.member r

/-- The codec of a type of records. -/
def codec : Codec ρ where
  ofNode := R.ofNode
  ofValue := R.ofValue
  toJson r := .object (R.members r)

end Record

/-! ## Kinds of fields -/

/-- A field that has to be there. -/
def requiredField {ρ α : Type} (name : String) (c : Codec α) (get : ρ → α)
    (put : α → ρ → ρ) : Field ρ :=
  ⟨name, α, c, get, put, true, fun _ => false⟩

/-- A field that may be missing or null, and is left out then. -/
def optionalField {ρ α : Type} (name : String) (c : Codec α) (get : ρ → Option α)
    (put : Option α → ρ → ρ) : Field ρ :=
  ⟨name, Option α, option c, get, put, false, Option.isNone⟩

/-- A field that may be missing, but is always written. -/
def defaultedField {ρ α : Type} (name : String) (c : Codec α) (get : ρ → α)
    (put : α → ρ → ρ) : Field ρ :=
  ⟨name, α, c, get, put, false, fun _ => false⟩

/-- A value where null stands for a default. -/
def orDefault {α : Type} (c : Codec α) (default : α) : Codec α where
  ofNode := unlessAbsent default c.ofNode
  ofValue
    | .null => .ok default
    | v => c.ofValue v
  toJson := c.toJson

end ConfigVault.Codec
