import ConfigVault.Kubeconfig.Basic
import ConfigVault.Kubeconfig.Error
import ConfigVault.Text.Base64

/-!
# Client configuration

How to reach the one cluster that a kubeconfig and a selection lead to, and as whom
(`ClientConfig.resolve`).

First the entries are looked up (`Selected`), each as the first one under its name.  Everything
else depends on them alone: the address, the certificates of authorities, the proxy and what a
credential program is told about the cluster.
-/

namespace ConfigVault

/-- What is selected instead of what the kubeconfig says. -/
structure Selection where
  context : Option String
  cluster : Option String
  user : Option String
  deriving DecidableEq, Repr

/-- Nothing else is selected. -/
def Selection.default : Selection := ⟨none, none, none⟩

/-- What a credential program is told about the cluster. -/
structure ExecCluster where
  server : Option String
  insecureSkipTlsVerify : Option Bool
  certificateAuthorityData : Option (List UInt8)
  proxyUrl : Option String
  tlsServerName : Option String
  /-- Data that only the program knows. -/
  config : Option Json

/-- How to reach a cluster, and as whom. -/
structure ClientConfig where
  clusterUrl : Uri
  defaultNamespace : String
  /-- The certificates of the authorities to trust, unless the usual ones are trusted. -/
  rootCertificates : Option (List (List UInt8))
  acceptInvalidCertificates : Bool
  proxyUrl : Option Uri
  tlsServerName : Option String
  authInfo : AuthInfo
  execCluster : Option ExecCluster

/-- The entries that a selection leads to. -/
structure Selected where
  context : Context
  cluster : Cluster
  authInfo : AuthInfo

namespace Kubeconfig

/-- The context under a name, if the first entry of that name has a body. -/
def context? (k : Kubeconfig) (name : String) : Option Context :=
  (k.contexts.find? fun c => c.name == name).bind NamedContext.context

/-- The cluster under a name, if the first entry of that name has a body. -/
def cluster? (k : Kubeconfig) (name : String) : Option Cluster :=
  (k.clusters.find? fun c => c.name == name).bind NamedCluster.cluster

/-- The user under a name, if the first entry of that name has a body. -/
def authInfo? (k : Kubeconfig) (name : String) : Option AuthInfo :=
  (k.authInfos.find? fun u => u.name == name).bind NamedAuthInfo.authInfo

/-- The name of the context to use. -/
def contextName? (k : Kubeconfig) (o : Selection) : Option String :=
  o.context.or k.currentContext

/-- The entries that a selection leads to. -/
def select (k : Kubeconfig) (o : Selection) : Except KubeconfigError Selected :=
  match k.contextName? o with
  | none => .error .currentContextNotSet
  | some name =>
    match k.context? name with
    | none => .error (.loadContext name)
    | some context =>
      let clusterName := o.cluster.getD context.cluster
      match k.cluster? clusterName with
      | none => .error (.loadClusterOfContext clusterName)
      | some cluster =>
        let userName := o.user.getD context.user
        match k.authInfo? userName with
        | none => .error (.findUser userName)
        | some authInfo => .ok ⟨context, cluster, authInfo⟩

end Kubeconfig

namespace Cluster

/-- The octets with a line end, unless there are none. -/
def withLineEnd (bytes : List UInt8) : List UInt8 :=
  match bytes.getLast? with
  | some b => if b = 0x0A then bytes else bytes ++ [0x0A]
  | none => bytes

/-- The certificates of authorities, as the kubeconfig gives them: the data wins over the file. -/
def authorities (disk : Disk) (c : Cluster) :
    Except KubeconfigError (Option (List UInt8)) :=
  let loaded : Except LoadError (Option (List UInt8)) :=
    match c.certificateAuthorityData, c.certificateAuthority with
    | some data, _ =>
      ((Text.Base64.decode? (Text.Utf8.encodeString data)).map some).mapError .base64
    | none, some path => ((disk.read path).map some).mapError (.file path)
    | none, none => .ok none
  (loaded.map fun bytes => bytes.map withLineEnd).mapError .loadCertificateAuthority

/-- The name of the extension that is meant for credential programs. -/
def execExtension : String := "client.authentication.k8s.io/exec"

/-- What a credential program is told about a cluster. -/
def forExec (disk : Disk) (c : Cluster) : Except KubeconfigError ExecCluster := do
  let authorities ← c.authorities disk
  pure {
    server := c.server
    insecureSkipTlsVerify := c.insecureSkipTlsVerify
    certificateAuthorityData := authorities
    proxyUrl := c.proxyUrl
    tlsServerName := c.tlsServerName
    config := ((c.extensions.getD []).find? fun e => e.name == execExtension).map
      NamedExtension.extension }

end Cluster

/-- The program of a user that wants to know about the cluster. -/
def AuthInfo.wantsCluster (a : AuthInfo) : Bool :=
  (a.exec.map ExecConfig.provideClusterInfo).getD false

namespace ClientConfig

/-- The namespace to work in, if a context names none. -/
def fallbackNamespace : String := "default"

/-- The certificates among armoured octets. -/
def certificates (bytes : List UInt8) : Except KubeconfigError (List (List UInt8)) := do
  let blocks ← (Text.Pem.blocks bytes).mapError .parseCertificates
  pure ((blocks.filter fun b => b.label == "CERTIFICATE").map Text.Pem.octets)

/-- The first of these texts that is not empty. -/
def firstGiven (texts : List (Option String)) : Option String :=
  texts.findSome? fun t => t.filter fun s => !s.isEmpty

/-- The proxy to use: that of the cluster, or one that the environment names. -/
def proxy (env : String → Option String) (c : Cluster) : Except KubeconfigError (Option Uri) :=
  match firstGiven [c.proxyUrl, env "HTTP_PROXY", env "HTTPS_PROXY"] with
  | none => .ok none
  | some text => ((Uri.ofText text).map some).mapError .parseProxyUrl

/-- The address of a cluster. -/
def clusterUrl? (c : Cluster) : Except KubeconfigError Uri :=
  match c.server with
  | none => .error .missingClusterUrl
  | some text => (Uri.ofText text).mapError .parseClusterUrl

/-- The client configuration for selected entries. -/
def ofSelected (disk : Disk) (env : String → Option String) (s : Selected) :
    Except KubeconfigError ClientConfig := do
  let execCluster ← if s.authInfo.wantsCluster then some <$> s.cluster.forExec disk else pure none
  let clusterUrl ← clusterUrl? s.cluster
  let authorities ← s.cluster.authorities disk
  let rootCertificates ←
    match authorities with
    | none => pure none
    | some bytes => some <$> certificates bytes
  let proxyUrl ← proxy env s.cluster
  pure {
    clusterUrl, rootCertificates, proxyUrl, execCluster
    defaultNamespace := s.context.namespace.getD fallbackNamespace
    acceptInvalidCertificates := s.cluster.insecureSkipTlsVerify.getD false
    tlsServerName := s.cluster.tlsServerName
    authInfo := s.authInfo }

/-- The client configuration that a kubeconfig and a selection lead to. -/
def resolve (disk : Disk) (env : String → Option String) (k : Kubeconfig) (o : Selection) :
    Except KubeconfigError ClientConfig := do
  ofSelected disk env (← k.select o)

end ClientConfig

end ConfigVault
