import ConfigVault.Cli.Options
import ConfigVault.Secret.Manifest
import ConfigVault.SecretKubeconfig

/-!
# Commands

The two things that the program does, and their options (`Command`): it encodes a kubeconfig into
a secret, and it decodes one from a secret.  Arguments that ask for neither ask for a help page or
the version, or are refused (`Demand`).
-/

namespace ConfigVault.Cli

/-- What is to be done. -/
inductive Command where
  | encode (name «namespace» : String) (kubeconfig : Option String) (output : ManifestFormat)
  | decode (file : Option String) (key : String) (verify : Bool) (context : Option String)
  deriving DecidableEq, Repr

/-- A command, and how it is logged. -/
structure Invocation where
  logJson : Bool
  command : Command
  deriving DecidableEq, Repr

/-- A page of help. -/
inductive Page where
  | program
  | encode
  | decode
  | help
  deriving DecidableEq, Repr

/-- What the arguments ask for. -/
inductive Demand where
  | run (invocation : Invocation)
  | page (page : Page)
  | version
  /-- Nothing was asked for, which is an error. -/
  | guidance
  | refuse (error : UsageError)
  deriving DecidableEq, Repr

/-- The variable that names a key. -/
def keyVariable : String := "KUBECONFIG_SECRET_KEY"

/-! ## Options and grammars -/

namespace Options

/-- The switch for the format of the log. -/
def logJson : Opt := .switch "log-json" "Emit logs as JSON"

/-- The name of the secret. -/
def name : Opt := { Opt.withValue "name" .text "Secret name" with required := true }

/-- The namespace of the secret. -/
def «namespace» : Opt :=
  { Opt.withValue "namespace" .text "Secret namespace" with fallback := some "default" }

/-- The kubeconfig to encode. -/
def kubeconfig : Opt :=
  .withValue "kubeconfig" .path "Kubeconfig to read, defaults to $KUBECONFIG or ~/.kube/config"

/-- The format to write. -/
def output : Opt :=
  { Opt.withValue "output" (.oneOf ["yaml", "json"]) "" with fallback := some "yaml" }

/-- The manifest to decode. -/
def file : Opt :=
  .withValue "file" .path "Secret manifest to read, \"-\" or omitted for stdin"

/-- The key to decode. -/
def key : Opt :=
  { Opt.withValue "key" .text "Data key holding the kubeconfig" with
    envName := some keyVariable
    fallback := some kubeconfigKey }

/-- The switch to check what was decoded. -/
def verify : Opt :=
  .switch "verify" "Resolve the kubeconfig into client configuration before printing"

/-- The context to check. -/
def context : Opt :=
  { Opt.withValue "context" .text
      "Context to resolve with --verify instead of current-context" with
    needs := some "verify" }

end Options

namespace Grammar

/-- The program itself. -/
def program : Grammar where
  name := "kubeconfig-secret"
  about := "Store kubeconfigs in Kubernetes Secrets and read them back as client configuration"
  options := [Options.logJson]
  hasVersion := true
  subcommands := ["encode", "decode", "help"]

/-- The command that encodes. -/
def encode : Grammar where
  name := "encode"
  about := "Wrap a kubeconfig in a Secret manifest"
  options := [Options.logJson, Options.name, Options.namespace, Options.kubeconfig,
    Options.output]
  hasVersion := false
  subcommands := []

/-- The command that decodes. -/
def decode : Grammar where
  name := "decode"
  about := "Print the kubeconfig held by a Secret manifest"
  options := [Options.file, Options.logJson, Options.key, Options.verify, Options.context]
  hasVersion := false
  subcommands := []

end Grammar

/-! ## Demands -/

namespace Demand

/-- The demand of arguments that were not read to the end. -/
def ofStop (page : Page) : Stop → Demand
  | .usage e => .refuse e
  | .help => .page page
  | .version => .version

/-- The options of a subcommand. -/
def optionsOf (s : Grammar) (args : List String) : Except Stop Given := do
  let (g, _) ← s.parse .nothing args
  s.check g
  pure g

/-- The format with a name. -/
def formatOf (name : Option String) : ManifestFormat :=
  if name = some "json" then .json else .yaml

/-- The command that encodes, with its options. -/
def encode (env : String → Option String) (g : Given) : Command :=
  let value := g.value? env
  .encode ((value Options.name).getD "") ((value Options.namespace).getD "")
    (value Options.kubeconfig) (formatOf (value Options.output))

/-- The command that decodes, with its options. -/
def decode (env : String → Option String) (g : Given) : Command :=
  let value := g.value? env
  .decode (value Options.file) ((value Options.key).getD "") (g.has Options.verify.long)
    (value Options.context)

/-- The demand for a subcommand.  `outer` are the options in front of it. -/
def subcommand (outer : Given) (page : Page) (s : Grammar) (command : Given → Command)
    (args : List String) : Demand :=
  match optionsOf s args with
  | .error stop => ofStop page stop
  | .ok g =>
    .run ⟨outer.has Options.logJson.long || g.has Options.logJson.long, command g⟩

/-- The page that the help command shows. -/
def helpPage : List String → Demand
  | [] => .page .program
  | name :: rest =>
    let page? : Option Page :=
      if name = "encode" then some .encode
      else if name = "decode" then some .decode
      else if name = "help" then some .help
      else none
    match page?, rest with
    | none, _ => .refuse (.unrecognizedSubcommand name)
    | some shown, [] => .page shown
    | some _, next :: _ => .refuse (.unrecognizedSubcommand next)

/-- What arguments ask for. -/
def ofArgs (env : String → Option String) (args : List String) : Demand :=
  match Grammar.program.parse .nothing args with
  | .error stop => ofStop .program stop
  | .ok (g, none) =>
    if g.values.isEmpty then .guidance
    else .refuse (.missingSubcommand Grammar.program.subcommands)
  | .ok (g, some (name, args)) =>
    if name = "encode" then subcommand g .encode Grammar.encode (encode env) args
    else if name = "decode" then subcommand g .decode Grammar.decode (decode env) args
    else helpPage args

end Demand

end ConfigVault.Cli
