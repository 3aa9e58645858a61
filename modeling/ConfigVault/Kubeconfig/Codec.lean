import ConfigVault.Codec.Record
import ConfigVault.Kubeconfig.Basic

/-!
# The written form of kubeconfigs

The names of the fields and the order in which they are written.  Fields that say nothing are left
out, except for the three lists of a kubeconfig itself.  No field may be given twice.
-/

namespace ConfigVault

open ConfigVault.Codec

namespace NamedExtension

/-- An extension has a name and any content. -/
def record : Record NamedExtension where
  title := "struct NamedExtension"
  blank := ⟨"", .null⟩
  rejectsRepeats := true
  fields := [
    requiredField "name" string name fun x r => { r with name := x },
    requiredField "extension" json extension fun x r => { r with extension := x }]

end NamedExtension

/-- A list of extensions. -/
def extensionsCodec : Codec (List NamedExtension) := list NamedExtension.record.codec

namespace Preferences

/-- The fields of preferences. -/
def record : Record Preferences where
  title := "struct Preferences"
  blank := ⟨none, none⟩
  rejectsRepeats := true
  fields := [
    optionalField "colors" bool colors fun x r => { r with colors := x },
    optionalField "extensions" extensionsCodec extensions fun x r => { r with extensions := x }]

end Preferences

namespace Cluster

/-- The fields of a cluster. -/
def record : Record Cluster where
  title := "struct Cluster"
  blank := ⟨none, none, none, none, none, none, none⟩
  rejectsRepeats := true
  fields := [
    optionalField "server" string server fun x r => { r with server := x },
    optionalField "insecure-skip-tls-verify" bool insecureSkipTlsVerify
      fun x r => { r with insecureSkipTlsVerify := x },
    optionalField "certificate-authority" string certificateAuthority
      fun x r => { r with certificateAuthority := x },
    optionalField "certificate-authority-data" string certificateAuthorityData
      fun x r => { r with certificateAuthorityData := x },
    optionalField "proxy-url" string proxyUrl fun x r => { r with proxyUrl := x },
    optionalField "tls-server-name" string tlsServerName fun x r => { r with tlsServerName := x },
    optionalField "extensions" extensionsCodec extensions fun x r => { r with extensions := x }]

end Cluster

namespace NamedCluster

/-- A cluster has a name, and may lack a body. -/
def record : Record NamedCluster where
  title := "struct NamedCluster"
  blank := ⟨"", none⟩
  rejectsRepeats := true
  fields := [
    requiredField "name" string name fun x r => { r with name := x },
    optionalField "cluster" Cluster.record.codec cluster fun x r => { r with cluster := x }]

end NamedCluster

namespace InteractiveMode

/-- The name of a mode. -/
def name : InteractiveMode → String
  | .never => "Never"
  | .ifAvailable => "IfAvailable"
  | .always => "Always"

/-- A mode is written by its name. -/
def codec : Codec InteractiveMode :=
  choice ([never, ifAvailable, always].map fun m => (m.name, m)) name

end InteractiveMode

namespace ExecConfig

/-- The fields of a credential program. -/
def record : Record ExecConfig where
  title := "struct ExecConfig"
  blank := ⟨none, none, none, none, none, false⟩
  rejectsRepeats := true
  fields := [
    optionalField "apiVersion" string apiVersion fun x r => { r with apiVersion := x },
    optionalField "command" string command fun x r => { r with command := x },
    optionalField "args" (list string) args fun x r => { r with args := x },
    optionalField "env" (list stringTable) env fun x r => { r with env := x },
    optionalField "interactiveMode" InteractiveMode.codec interactiveMode
      fun x r => { r with interactiveMode := x },
    defaultedField "provideClusterInfo" bool provideClusterInfo
      fun x r => { r with provideClusterInfo := x }]

end ExecConfig

namespace AuthProvider

/-- A credential service has a name and settings. -/
def record : Record AuthProvider where
  title := "struct AuthProviderConfig"
  blank := ⟨"", .empty⟩
  rejectsRepeats := true
  fields := [
    requiredField "name" string name fun x r => { r with name := x },
    defaultedField "config" stringTable config fun x r => { r with config := x }]

end AuthProvider

namespace AuthInfo

/-- The fields of a user. -/
def record : Record AuthInfo where
  title := "struct AuthInfo"
  blank := ⟨none, none, none, none, none, none, none, none, none, none, none, none⟩
  rejectsRepeats := true
  fields := [
    optionalField "username" string username fun x r => { r with username := x },
    optionalField "password" string password fun x r => { r with password := x },
    optionalField "token" string token fun x r => { r with token := x },
    optionalField "tokenFile" string tokenFile fun x r => { r with tokenFile := x },
    optionalField "client-certificate" string clientCertificate
      fun x r => { r with clientCertificate := x },
    optionalField "client-certificate-data" string clientCertificateData
      fun x r => { r with clientCertificateData := x },
    optionalField "client-key" string clientKey fun x r => { r with clientKey := x },
    optionalField "client-key-data" string clientKeyData fun x r => { r with clientKeyData := x },
    optionalField "as" string impersonate fun x r => { r with impersonate := x },
    optionalField "as-groups" (list string) impersonateGroups
      fun x r => { r with impersonateGroups := x },
    optionalField "auth-provider" AuthProvider.record.codec authProvider
      fun x r => { r with authProvider := x },
    optionalField "exec" ExecConfig.record.codec exec fun x r => { r with exec := x }]

end AuthInfo

namespace NamedAuthInfo

/-- A user has a name, and may lack a body. -/
def record : Record NamedAuthInfo where
  title := "struct NamedAuthInfo"
  blank := ⟨"", none⟩
  rejectsRepeats := true
  fields := [
    requiredField "name" string name fun x r => { r with name := x },
    optionalField "user" AuthInfo.record.codec authInfo fun x r => { r with authInfo := x }]

end NamedAuthInfo

namespace Context

/-- The fields of a context. -/
def record : Record Context where
  title := "struct Context"
  blank := ⟨"", "", none, none⟩
  rejectsRepeats := true
  fields := [
    requiredField "cluster" string cluster fun x r => { r with cluster := x },
    requiredField "user" string user fun x r => { r with user := x },
    optionalField "namespace" string «namespace» fun x r => { r with «namespace» := x },
    optionalField "extensions" extensionsCodec extensions fun x r => { r with extensions := x }]

end Context

namespace NamedContext

/-- A context has a name, and may lack a body. -/
def record : Record NamedContext where
  title := "struct NamedContext"
  blank := ⟨"", none⟩
  rejectsRepeats := true
  fields := [
    requiredField "name" string name fun x r => { r with name := x },
    optionalField "context" Context.record.codec context fun x r => { r with context := x }]

end NamedContext

namespace Kubeconfig

/-- The fields of a kubeconfig; a list that is null has no entries. -/
def record : Record Kubeconfig where
  title := "struct Kubeconfig"
  blank := empty
  rejectsRepeats := true
  fields := [
    optionalField "preferences" Preferences.record.codec preferences
      fun x r => { r with preferences := x },
    defaultedField "clusters" (orDefault (list NamedCluster.record.codec) []) clusters
      fun x r => { r with clusters := x },
    defaultedField "users" (orDefault (list NamedAuthInfo.record.codec) []) authInfos
      fun x r => { r with authInfos := x },
    defaultedField "contexts" (orDefault (list NamedContext.record.codec) []) contexts
      fun x r => { r with contexts := x },
    optionalField "current-context" string currentContext
      fun x r => { r with currentContext := x },
    optionalField "extensions" extensionsCodec extensions fun x r => { r with extensions := x },
    optionalField "kind" string kind fun x r => { r with kind := x },
    optionalField "apiVersion" string apiVersion fun x r => { r with apiVersion := x }]

/-- The JSON form of a kubeconfig. -/
def toJson (k : Kubeconfig) : Json := record.codec.toJson k

/-- Reads a kubeconfig leniently from the octets of a document. -/
def ofBytes (bytes : List UInt8) : Except ReadError Kubeconfig :=
  readDocument record.ofNode bytes

end Kubeconfig

end ConfigVault
