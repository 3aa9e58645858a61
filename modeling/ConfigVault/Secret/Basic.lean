import ConfigVault.Json.Basic
import ConfigVault.Secret.Timestamp
import ConfigVault.SortedMap

/-!
# Secrets

A secret of a cluster: octets under keys, and the metadata that any object of a cluster has.
Absent data and empty data are different things.

Texts may be given beside the data (`stringData`).  They are folded into the data when a manifest
is taken in (`Secret.foldStringData`), and win over the entries that are there.
-/

namespace ConfigVault

/-- An object that another one belongs to. -/
structure OwnerReference where
  apiVersion : String
  blockOwnerDeletion : Option Bool
  controller : Option Bool
  kind : String
  name : String
  uid : String
  deriving BEq

/-- Which fields of an object a program manages. -/
structure ManagedFieldsEntry where
  apiVersion : Option String
  fieldsType : Option String
  fieldsV1 : Option Json
  manager : Option String
  operation : Option String
  subresource : Option String
  time : Option Timestamp
  deriving BEq

/-- What any object of a cluster is described by. -/
structure ObjectMeta where
  annotations : Option (SortedMap String)
  creationTimestamp : Option Timestamp
  deletionGracePeriodSeconds : Option Int
  deletionTimestamp : Option Timestamp
  finalizers : Option (List String)
  generateName : Option String
  generation : Option Int
  labels : Option (SortedMap String)
  managedFields : Option (List ManagedFieldsEntry)
  name : Option String
  «namespace» : Option String
  ownerReferences : Option (List OwnerReference)
  resourceVersion : Option String
  selfLink : Option String
  uid : Option String
  deriving BEq

/-- Metadata that says nothing. -/
def ObjectMeta.empty : ObjectMeta :=
  ⟨none, none, none, none, none, none, none, none, none, none, none, none, none, none, none⟩

/-- A secret. -/
structure Secret where
  data : Option (SortedMap (List UInt8))
  immutable : Option Bool
  metadata : ObjectMeta
  stringData : Option (SortedMap String)
  type : Option String
  deriving BEq

namespace Secret

/-- A secret that holds nothing and has no name. -/
def empty : Secret := ⟨none, none, .empty, none, none⟩

/-- The octets under a key. -/
def get? (s : Secret) (key : String) : Option (List UInt8) :=
  s.data.bind (·.get? key)

/-- The secret with these octets under a key. -/
def insert (s : Secret) (key : String) (value : List UInt8) : Secret :=
  { s with data := some ((s.data.getD .empty).insert key value) }

/-- The secret without a key; it has data only if it had before. -/
def erase (s : Secret) (key : String) : Secret :=
  { s with data := s.data.map (·.erase key) }

/-- The secret in which the entry of one key is that of another. -/
def rename (s : Secret) (source target : String) : Secret :=
  match s.get? source with
  | none => { s with data := some (s.data.getD .empty) }
  | some value => (s.erase source).insert target value

/-- The secret with this name and namespace. -/
def withIdentity (s : Secret) (name «namespace» : Option String) : Secret :=
  { s with metadata := { s.metadata with name, «namespace» } }

end Secret

end ConfigVault
