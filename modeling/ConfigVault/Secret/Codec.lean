import ConfigVault.Codec.Record
import ConfigVault.Secret.Basic
import ConfigVault.Text.Base64
import ConfigVault.Text.Utf8

/-!
# The written form of secrets

The names of the fields and the order in which they are written.  Fields that say nothing are left
out, except for the metadata of a secret and the names in a reference.  Where a field is given
twice the later one counts.

A secret says which kind of object it is, and nothing that calls itself by another kind is read as
one.
-/

namespace ConfigVault

open ConfigVault.Yaml ConfigVault.Codec

namespace Codec

/-- A value in a layer of its own, which counts as one more collection around it. -/
def layered {α : Type} (c : Codec α) : Codec α where
  ofNode p node :=
    match node with
    | .cut => p.cut
    | node => do c.ofNode (← p.enter node.mark) node
  ofValue := c.ofValue
  toJson := c.toJson

/-- The only string that may be given.  Any other is a fault of the record around it. -/
def constant (text : String) : Codec Unit where
  ofNode p node := do check (← string.ofNode p node) |> Value.lift
  ofValue v := do check (← string.ofValue v)
  toJson _ := .string text
where
  /-- The string is the one that is wanted. -/
  check (s : String) : Except Mismatch Unit :=
    if s = text then .ok () else .error (.invalidValue (.string s) text)

/-- Octets, written in Base64. -/
def octets : Codec (List UInt8) :=
  ofText "a base64-encoded string"
    (fun s => (Text.Base64.decode? (Text.Utf8.encodeString s)).mapError
      fun fault => .badContent fault.message)
    Text.Base64.encodeString

/-- A timestamp. -/
def timestamp : Codec Timestamp :=
  layered <| ofText "an RFC 3339 formatted date and time string"
    (fun s => (Timestamp.ofText s).mapError fun fault => .badContent fault.message)
    Timestamp.text

/-- A field that says the same in every record. -/
def constantField {ρ : Type} (name text : String) : Field ρ :=
  defaultedField name (constant text) (fun _ => ()) fun _ r => r

end Codec

namespace OwnerReference

/-- A reference names an object; what is missing is empty. -/
def record : Record OwnerReference where
  title := "OwnerReference"
  blank := ⟨"", none, none, "", "", ""⟩
  rejectsRepeats := false
  fields := [
    defaultedField "apiVersion" (orDefault string "") apiVersion
      fun x r => { r with apiVersion := x },
    optionalField "blockOwnerDeletion" bool blockOwnerDeletion
      fun x r => { r with blockOwnerDeletion := x },
    optionalField "controller" bool controller fun x r => { r with controller := x },
    defaultedField "kind" (orDefault string "") kind fun x r => { r with kind := x },
    defaultedField "name" (orDefault string "") name fun x r => { r with name := x },
    defaultedField "uid" (orDefault string "") uid fun x r => { r with uid := x }]

end OwnerReference

namespace ManagedFieldsEntry

/-- The fields of an entry about managed fields. -/
def record : Record ManagedFieldsEntry where
  title := "ManagedFieldsEntry"
  blank := ⟨none, none, none, none, none, none, none⟩
  rejectsRepeats := false
  fields := [
    optionalField "apiVersion" string apiVersion fun x r => { r with apiVersion := x },
    optionalField "fieldsType" string fieldsType fun x r => { r with fieldsType := x },
    optionalField "fieldsV1" (layered json) fieldsV1 fun x r => { r with fieldsV1 := x },
    optionalField "manager" string manager fun x r => { r with manager := x },
    optionalField "operation" string operation fun x r => { r with operation := x },
    optionalField "subresource" string subresource fun x r => { r with subresource := x },
    optionalField "time" timestamp time fun x r => { r with time := x }]

end ManagedFieldsEntry

namespace ObjectMeta

/-- The fields of metadata. -/
def record : Record ObjectMeta where
  title := "ObjectMeta"
  blank := empty
  rejectsRepeats := false
  fields := [
    optionalField "annotations" (sortedMap string) annotations
      fun x r => { r with annotations := x },
    optionalField "creationTimestamp" timestamp creationTimestamp
      fun x r => { r with creationTimestamp := x },
    optionalField "deletionGracePeriodSeconds" int64 deletionGracePeriodSeconds
      fun x r => { r with deletionGracePeriodSeconds := x },
    optionalField "deletionTimestamp" timestamp deletionTimestamp
      fun x r => { r with deletionTimestamp := x },
    optionalField "finalizers" (list string) finalizers fun x r => { r with finalizers := x },
    optionalField "generateName" string generateName fun x r => { r with generateName := x },
    optionalField "generation" int64 generation fun x r => { r with generation := x },
    optionalField "labels" (sortedMap string) labels fun x r => { r with labels := x },
    optionalField "managedFields" (list ManagedFieldsEntry.record.codec) managedFields
      fun x r => { r with managedFields := x },
    optionalField "name" string name fun x r => { r with name := x },
    optionalField "namespace" string «namespace» fun x r => { r with «namespace» := x },
    optionalField "ownerReferences" (list OwnerReference.record.codec) ownerReferences
      fun x r => { r with ownerReferences := x },
    optionalField "resourceVersion" string resourceVersion
      fun x r => { r with resourceVersion := x },
    optionalField "selfLink" string selfLink fun x r => { r with selfLink := x },
    optionalField "uid" string uid fun x r => { r with uid := x }]

end ObjectMeta

namespace Secret

/-- The fields of a secret. -/
def record : Record Secret where
  title := "Secret"
  blank := empty
  rejectsRepeats := false
  fields := [
    constantField "apiVersion" "v1",
    constantField "kind" "Secret",
    optionalField "data" (sortedMap (orDefault octets [])) data fun x r => { r with data := x },
    optionalField "immutable" bool immutable fun x r => { r with immutable := x },
    defaultedField "metadata" (orDefault ObjectMeta.record.codec .empty) metadata
      fun x r => { r with metadata := x },
    optionalField "stringData" (sortedMap string) stringData
      fun x r => { r with stringData := x },
    optionalField "type" string type fun x r => { r with type := x }]

/-- The JSON form of a secret. -/
def toJson (s : Secret) : Json := record.codec.toJson s

/-- Reads a secret from the octets of a document. -/
def ofBytes (bytes : List UInt8) : Except ReadError Secret :=
  readDocument record.ofNode bytes

end Secret

end ConfigVault
