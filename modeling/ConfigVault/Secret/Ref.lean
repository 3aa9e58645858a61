import ConfigVault.Secret.Basic

/-!
# Identities of secrets

A secret is told from others by its namespace and its name.
-/

namespace ConfigVault

/-- The namespace and the name of a secret. -/
structure SecretRef where
  «namespace» : String
  name : String
  deriving DecidableEq, Repr

namespace SecretRef

/-- The identity in which nothing is set. -/
def empty : SecretRef := ⟨"", ""⟩

/-- The identity of a secret; what is not set is empty. -/
def ofSecret (s : Secret) : SecretRef :=
  ⟨s.metadata.namespace.getD "", s.metadata.name.getD ""⟩

/-- The text of an identity; nothing in it is escaped. -/
def text (r : SecretRef) : String := r.namespace ++ "/" ++ r.name

end SecretRef

end ConfigVault
