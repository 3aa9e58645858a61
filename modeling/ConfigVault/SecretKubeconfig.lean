import ConfigVault.Client.Config
import ConfigVault.Error
import ConfigVault.Kubeconfig.Codec
import ConfigVault.Secret.Codec
import ConfigVault.Yaml.Writer

/-!
# Kubeconfigs in secrets

A kubeconfig is kept in a secret as YAML text under a key (`Kubeconfig.toSecret`), and read back
from there with the identity of the secret beside it (`SecretKubeconfig`).  Whoever may edit the
secret may put anything under the key, so reading can fail, and each failure names the secret.
-/

namespace ConfigVault

/-- The key under which kubeconfigs are kept. -/
def kubeconfigKey : String := "kubeconfig"

/-- The YAML text of a kubeconfig. -/
def Kubeconfig.render (k : Kubeconfig) : String := Yaml.render k.toJson

/-- The secret that keeps a kubeconfig. -/
def Kubeconfig.toSecret (k : Kubeconfig) (r : SecretRef) : Secret :=
  (Secret.empty.withIdentity (some r.name) (some r.namespace)).insert kubeconfigKey
    (Text.Utf8.encodeString k.render)

/-- The octets that a secret has under a key. -/
def Secret.read (s : Secret) (key : String) : Except Error (List UInt8) :=
  match s.get? key with
  | some bytes => .ok bytes
  | none => .error (.keyNotFound key (SecretRef.ofSecret s))

/-- A kubeconfig, with the secret that it was read from. -/
structure SecretKubeconfig where
  secret : SecretRef
  kubeconfig : Kubeconfig

namespace SecretKubeconfig

/-- The kubeconfig that a secret has under a key. -/
def ofSecret (s : Secret) (key : String) : Except Error SecretKubeconfig := do
  let bytes ← s.read key
  let kubeconfig ← (Kubeconfig.ofBytes bytes).mapError
    (.invalidKubeconfig (SecretRef.ofSecret s))
  pure ⟨SecretRef.ofSecret s, kubeconfig⟩

/-! ## Use -/

/-- The namespace of the selected context. -/
def namespace? (h : SecretKubeconfig) (o : Selection) : Option String := do
  let name ← o.context.or h.kubeconfig.currentContext
  let named ← h.kubeconfig.contexts.find? fun c => c.name == name
  let context ← named.context
  context.namespace

/-- The client configuration that the kubeconfig and a selection lead to. -/
def clientConfig (disk : Disk) (env : String → Option String) (h : SecretKubeconfig)
    (o : Selection) : Except Error ClientConfig :=
  (ClientConfig.resolve disk env h.kubeconfig o).mapError (.clientConfig h.secret)

end SecretKubeconfig

end ConfigVault
