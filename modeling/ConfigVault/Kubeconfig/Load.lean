import ConfigVault.Kubeconfig.Codec
import ConfigVault.Kubeconfig.Merge

/-!
# Loading kubeconfigs

A kubeconfig is read **strictly** here: each document of a text is read as a value first, in which
no key occurs twice and only strings are strings, then as a kubeconfig; and the documents are
merged.

In a file, relative paths of credentials are relative to the directory of the file; they are
changed so that they lead to the same files from outside (`Kubeconfig.relocate`).  Several files
are merged in the order in which the environment lists them.
-/

namespace ConfigVault.Kubeconfig

open ConfigVault.Yaml ConfigVault.Codec

/-- The value of a document. -/
def valueOf (d : Document) : Except ReadError Value := do
  let (v, _) ← (Value.read (Place.root d) d.root).run 0
  match d.fault with
  | some fault => .error (.document fault)
  | none => pure v

/-- The kubeconfig in a document. -/
def ofDocument (d : Document) : Except KubeconfigError Kubeconfig := do
  let v ← (valueOf d).mapError .parse
  (record.ofValue v).mapError fun m => .invalidStructure (.mismatch m none)

/-- The kubeconfigs in a text. -/
def documentsOf (text : String) : Except KubeconfigError (List Kubeconfig) :=
  (Document.allOf (Text.Utf8.encodeString text)).mapM ofDocument

/-- The kubeconfig that a text holds. -/
def ofText (text : String) : Except KubeconfigError Kubeconfig := do
  mergeAll empty (← documentsOf text)

/-! ## Files -/

/-- The cluster with paths that start from a directory. -/
def relocateCluster (directory : String) (c : NamedCluster) : NamedCluster :=
  { c with cluster := c.cluster.map fun b =>
      { b with certificateAuthority := b.certificateAuthority.map (Disk.pathIn directory) } }

/-- The user with paths that start from a directory. -/
def relocateUser (directory : String) (u : NamedAuthInfo) : NamedAuthInfo :=
  { u with authInfo := u.authInfo.map fun b =>
      { b with
        clientCertificate := b.clientCertificate.map (Disk.pathIn directory)
        clientKey := b.clientKey.map (Disk.pathIn directory)
        tokenFile := b.tokenFile.map (Disk.pathIn directory) } }

/-- The kubeconfig with paths that start from a directory. -/
def relocate (directory : String) (k : Kubeconfig) : Kubeconfig :=
  { k with
    clusters := k.clusters.map (relocateCluster directory)
    authInfos := k.authInfos.map (relocateUser directory) }

/-- The kubeconfig in a file. -/
def readFile (disk : Disk) (path : String) : Except KubeconfigError Kubeconfig := do
  let text ← (disk.readText path).mapError (.readConfig path)
  let documents ← documentsOf text
  ofDocuments (documents.map (relocate (Disk.directoryOf path)))

/-- The kubeconfig in several files. -/
def readFiles (disk : Disk) (paths : List String) : Except KubeconfigError Kubeconfig :=
  paths.foldlM (fun k path => do merge k (← readFile disk path)) empty

/-- The paths in a list that colons separate. -/
def pathsOf (list : String) : List String :=
  ((list.toList.splitOn ':').filter fun p => !p.isEmpty).map String.ofList

/-- The file that is read if no other is named. -/
def defaultPath (home : String) : String :=
  Disk.pathIn (Disk.pathIn home ".kube") "config"

/-- The files that the environment names, if it names any. -/
def pathsIn (env : String → Option String) : List String :=
  pathsOf ((env "KUBECONFIG").getD "")

/-- The kubeconfig that the environment leads to. -/
def readDefault (disk : Disk) (env : String → Option String) :
    Except KubeconfigError Kubeconfig :=
  match pathsIn env with
  | [] =>
    match env "HOME" with
    | some home => readFile disk (defaultPath home)
    | none => .error .findPath
  | paths => readFiles disk paths

end ConfigVault.Kubeconfig
