import ConfigVault.Json.Basic
import ConfigVault.StringTable

/-!
# Kubeconfigs

What a client needs to reach clusters: the clusters themselves, the users to appear as, and the
contexts that pair a user with a cluster, all in lists of named entries.  A list may hold a name
more than once; the first entry is the one that is found under it.

Nothing is interpreted here.  Credentials are kept as the text they were given as, and paths and
addresses are plain strings.
-/

namespace ConfigVault

/-- Data under a name that only some programs know. -/
structure NamedExtension where
  name : String
  extension : Json

/-- Settings for the terminal. -/
structure Preferences where
  colors : Option Bool
  extensions : Option (List NamedExtension)

/-- How to reach a cluster. -/
structure Cluster where
  server : Option String
  insecureSkipTlsVerify : Option Bool
  certificateAuthority : Option String
  certificateAuthorityData : Option String
  proxyUrl : Option String
  tlsServerName : Option String
  extensions : Option (List NamedExtension)

/-- A cluster under its name. -/
structure NamedCluster where
  name : String
  cluster : Option Cluster

/-- Whether a credential plugin may ask the user. -/
inductive InteractiveMode where
  | never
  | ifAvailable
  | always
  deriving DecidableEq, Repr

/-- A program that provides credentials. -/
structure ExecConfig where
  apiVersion : Option String
  command : Option String
  args : Option (List String)
  env : Option (List StringTable)
  interactiveMode : Option InteractiveMode
  provideClusterInfo : Bool

/-- A service that provides credentials. -/
structure AuthProvider where
  name : String
  config : StringTable

/-- How to prove an identity to a cluster. -/
structure AuthInfo where
  username : Option String
  password : Option String
  token : Option String
  tokenFile : Option String
  clientCertificate : Option String
  clientCertificateData : Option String
  clientKey : Option String
  clientKeyData : Option String
  impersonate : Option String
  impersonateGroups : Option (List String)
  authProvider : Option AuthProvider
  exec : Option ExecConfig

/-- The string tables of a user: the settings of its service and the environments of its program. -/
def AuthInfo.tables (a : AuthInfo) : List StringTable :=
  (a.authProvider.map AuthProvider.config).toList ++ (a.exec.bind ExecConfig.env).getD []

/-- A user under its name. -/
structure NamedAuthInfo where
  name : String
  authInfo : Option AuthInfo

/-- A user on a cluster, with the namespace to work in. -/
structure Context where
  cluster : String
  user : String
  «namespace» : Option String
  extensions : Option (List NamedExtension)

/-- A context under its name. -/
structure NamedContext where
  name : String
  context : Option Context

/-- A kubeconfig. -/
structure Kubeconfig where
  preferences : Option Preferences
  clusters : List NamedCluster
  authInfos : List NamedAuthInfo
  contexts : List NamedContext
  currentContext : Option String
  extensions : Option (List NamedExtension)
  kind : Option String
  apiVersion : Option String

namespace Kubeconfig

/-- A kubeconfig that says nothing. -/
def empty : Kubeconfig := ⟨none, [], [], [], none, none, none, none⟩

/-- The string tables in a kubeconfig, wherever they stand. -/
def tables (k : Kubeconfig) : List StringTable :=
  k.authInfos.flatMap fun u => (u.authInfo.map AuthInfo.tables).getD []

/-- The text of a kubeconfig is determined: none of its string tables has a choice of orders. -/
def isOrdered (k : Kubeconfig) : Bool :=
  decide (∀ t ∈ k.tables, t.HasOneOrder)

theorem isOrdered_iff {k : Kubeconfig} : k.isOrdered = true ↔ ∀ t ∈ k.tables, t.HasOneOrder :=
  decide_eq_true_iff

end Kubeconfig

end ConfigVault
