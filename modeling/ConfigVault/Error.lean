import ConfigVault.Kubeconfig.Error
import ConfigVault.Secret.Ref

/-!
# Errors

What can go wrong between secrets and kubeconfigs.  An error on the way out of a secret names the
secret it is about.

Errors are compared by what they say: two that wrap a cause are equal if the causes have the same
message, whatever led to them.
-/

namespace ConfigVault

/-- What went wrong between a secret and a kubeconfig. -/
inductive Error where
  /-- The secret has nothing under the key. -/
  | keyNotFound (key : String) (secret : SecretRef)
  /-- What the secret has under the key is no kubeconfig. -/
  | invalidKubeconfig (secret : SecretRef) (source : Codec.ReadError)
  /-- The kubeconfig could not be written. -/
  | write (source : Codec.ReadError)
  /-- The kubeconfig does not lead to a cluster. -/
  | clientConfig (secret : SecretRef) (source : KubeconfigError)
  /-- The text is no manifest. -/
  | manifest (reason : String)

namespace Error

/-- The message of an error. -/
def message : Error → String
  | .keyNotFound key secret => "key " ++ Text.quote key ++ " not found in secret " ++ secret.text
  | .invalidKubeconfig secret source =>
    "secret " ++ secret.text ++ " holds an invalid kubeconfig: " ++ source.message
  | .write source => "failed to write kubeconfig: " ++ source.message
  | .clientConfig secret source =>
    "failed to load client configuration from secret " ++ secret.text ++ ": " ++ source.message
  | .manifest reason => "Manifest error: " ++ reason

/-- The secret that an error is about. -/
def secret? : Error → Option SecretRef
  | .keyNotFound _ secret => some secret
  | .invalidKubeconfig secret _ => some secret
  | .clientConfig secret _ => some secret
  | .write _ => none
  | .manifest _ => none

/-- The secret lacked the key. -/
def isKeyNotFound : Error → Bool
  | .keyNotFound .. => true
  | _ => false

/-- The secret held no kubeconfig. -/
def isInvalidKubeconfig : Error → Bool
  | .invalidKubeconfig .. => true
  | _ => false

/-- The messages of what caused an error, outermost first. -/
def causes : Error → List String
  | .invalidKubeconfig _ source => [source.message]
  | .write source => [source.message]
  | .clientConfig _ source => source.message :: source.causes
  | _ => []

/-- Two errors say the same. -/
def same : Error → Error → Bool
  | .keyNotFound k r, .keyNotFound k' r' => k == k' && r == r'
  | .invalidKubeconfig r e, .invalidKubeconfig r' e' => r == r' && e.message == e'.message
  | .write e, .write e' => e.message == e'.message
  | .clientConfig r e, .clientConfig r' e' => r == r' && e.message == e'.message
  | .manifest m, .manifest m' => m == m'
  | _, _ => false

instance : BEq Error := ⟨same⟩

end Error

end ConfigVault
