import ConfigVault.Client.Uri
import ConfigVault.Codec.Reading
import ConfigVault.Disk
import ConfigVault.Text.Escape
import ConfigVault.Text.Pem

/-!
# What can go wrong with a kubeconfig

A kubeconfig can fail to be read, to be merged with another one, and to lead to a cluster.  Each
failure has a message, and the messages of what caused it, outermost first
(`KubeconfigError.causes`).

The certificate and the key of a user are loaded only when a client connects.  Resolving a
kubeconfig never fails with them, but whoever wraps an error may wrap these as well.
-/

namespace ConfigVault

/-- Why credentials cannot be loaded. -/
inductive LoadError where
  | base64 (fault : Text.Base64.Fault)
  | file (path : String) (fault : FileFault)
  /-- There is neither data nor a path. -/
  | noSource
  deriving DecidableEq, Repr

namespace LoadError

/-- The message of a failure to load. -/
def message : LoadError → String
  | .base64 fault => "failed to decode base64 data: " ++ fault.message
  | .file path fault => "failed to read file '" ++ Text.quote path ++ "': " ++ fault.message
  | .noSource => "no base64 data or file"

/-- The messages of what caused a failure to load. -/
def causes : LoadError → List String
  | .base64 fault => [fault.message]
  | .file _ fault => [fault.message]
  | .noSource => []

end LoadError

/-- What went wrong with a kubeconfig. -/
inductive KubeconfigError where
  | currentContextNotSet
  | kindMismatch
  | apiVersionMismatch
  | loadContext (name : String)
  | loadClusterOfContext (name : String)
  | findPath
  | readConfig (path : String) (fault : FileFault)
  | parse (error : Codec.ReadError)
  | invalidStructure (error : Codec.ReadError)
  | missingClusterUrl
  | parseClusterUrl (fault : Uri.Fault)
  | parseProxyUrl (fault : Uri.Fault)
  | loadCertificateAuthority (error : LoadError)
  | loadClientCertificate (error : LoadError)
  | loadClientKey (error : LoadError)
  | parseCertificates (fault : Text.Pem.Fault)
  | findUser (name : String)
  deriving DecidableEq, Repr

namespace KubeconfigError

/-- The message of an error. -/
def message : KubeconfigError → String
  | .currentContextNotSet => "failed to determine current context"
  | .kindMismatch => "kubeconfigs with mismatching kind cannot be merged"
  | .apiVersionMismatch => "kubeconfigs with mismatching api version cannot be merged"
  | .loadContext name => "failed to load current context: " ++ name
  | .loadClusterOfContext name => "failed to load the cluster of context: " ++ name
  | .findPath => "failed to find the path of kubeconfig"
  | .readConfig path fault =>
    "failed to read kubeconfig from '" ++ Text.quote path ++ "': " ++ fault.message
  | .parse error => "failed to parse kubeconfig YAML: " ++ error.message
  | .invalidStructure error =>
    "the structure of the parsed kubeconfig is invalid: " ++ error.message
  | .missingClusterUrl => "cluster url is missing on selected cluster"
  | .parseClusterUrl fault => "failed to parse cluster url: " ++ fault.message
  | .parseProxyUrl fault => "failed to parse proxy url: " ++ fault.message
  | .loadCertificateAuthority _ => "failed to load certificate authority"
  | .loadClientCertificate _ => "failed to load client certificate"
  | .loadClientKey _ => "failed to load client key"
  | .parseCertificates fault => "failed to parse PEM-encoded certificates: " ++ fault.message
  | .findUser name => "failed to find named user: " ++ name

/-- The messages of what caused an error, outermost first. -/
def causes : KubeconfigError → List String
  | .readConfig _ fault => [fault.message]
  | .parse error => [error.message]
  | .invalidStructure error => [error.message]
  | .parseClusterUrl fault => [fault.message]
  | .parseProxyUrl fault => [fault.message]
  | .loadCertificateAuthority error => error.message :: error.causes
  | .loadClientCertificate error => error.message :: error.causes
  | .loadClientKey error => error.message :: error.causes
  | .parseCertificates fault => fault.message :: fault.causes
  | _ => []

end KubeconfigError

end ConfigVault
