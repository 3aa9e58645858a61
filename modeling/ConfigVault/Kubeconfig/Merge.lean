import ConfigVault.Kubeconfig.Error
import ConfigVault.Kubeconfig.Basic

/-!
# Merging kubeconfigs

What one kubeconfig says comes before what the next one says: the next one only adds what is
missing, and entries under names that are not taken.  Two kubeconfigs of different kinds cannot be
merged.
-/

namespace ConfigVault.Kubeconfig

/-- The entries of a list, and those of the next whose names do not occur in it. -/
def appendNew {α : Type} (name : α → String) (xs ys : List α) : List α :=
  xs ++ ys.filter fun y => !(xs.map name).contains (name y)

/-- Two texts are there and differ. -/
def conflict (a b : Option String) : Bool :=
  a.isSome && b.isSome && a != b

/-- A kubeconfig with what the next one adds to it. -/
def merge (k next : Kubeconfig) : Except KubeconfigError Kubeconfig :=
  if conflict k.kind next.kind then .error .kindMismatch
  else if conflict k.apiVersion next.apiVersion then .error .apiVersionMismatch
  else .ok {
    preferences := k.preferences.or next.preferences
    clusters := appendNew NamedCluster.name k.clusters next.clusters
    authInfos := appendNew NamedAuthInfo.name k.authInfos next.authInfos
    contexts := appendNew NamedContext.name k.contexts next.contexts
    currentContext := k.currentContext.or next.currentContext
    extensions := k.extensions.or next.extensions
    kind := k.kind.or next.kind
    apiVersion := k.apiVersion.or next.apiVersion }

/-- A kubeconfig with what the next ones add to it, one after the other. -/
def mergeAll (k : Kubeconfig) (nexts : List Kubeconfig) : Except KubeconfigError Kubeconfig :=
  nexts.foldlM merge k

/-- The kubeconfig that several make, the first one as it is. -/
def ofDocuments : List Kubeconfig → Except KubeconfigError Kubeconfig
  | [] => .ok empty
  | k :: nexts => mergeAll k nexts

end ConfigVault.Kubeconfig
