import ConfigVault.Cli.Help
import ConfigVault.Cli.Log
import ConfigVault.Kubeconfig.Load

/-!
# Runs

A run of the program: what it sees of the world (`World`), and what comes of it (`Outcome`).  A run
either prints its whole result and ends well, or it prints nothing and reports why; the log goes
beside both and changes neither.
-/

namespace ConfigVault.Cli

/-- What a run sees. -/
structure World where
  disk : Disk
  stdin : List UInt8
  env : String → Option String

/-- Why a run failed: what it could not do, and what caused that, outermost first. -/
structure Failure where
  message : String
  causes : List String
  deriving DecidableEq, Repr

namespace Failure

/-- A text behind the first line of another, with its further lines indented alike. -/
def indented (indent : String) (s : String) : String :=
  String.join ((s.toList.splitOn '\n').map String.ofList |>.intersperse ("\n" ++ indent))

/-- The lines about causes: several are numbered. -/
def causesText : List String → String
  | [] => ""
  | [cause] => "\n\nCaused by:\n    " ++ indented "    " cause
  | causes =>
    "\n\nCaused by:" ++ String.join (causes.mapIdx fun i cause =>
      let number := toString i
      "\n" ++ "".pushn ' ' (5 - number.length) ++ number ++ ": " ++ indented "       " cause)

/-- The report of a failure. -/
def report (f : Failure) : String :=
  "Error: " ++ f.message ++ causesText f.causes ++ "\n"

/-- The failure of what the library does. -/
def ofError (e : Error) : Failure := ⟨e.message, e.causes⟩

end Failure

/-- What comes of a run. -/
structure Outcome where
  exitCode : Nat
  stdout : String
  /-- The events that are shown. -/
  events : List Log.Event
  logJson : Bool
  /-- What stands behind the log. -/
  report : String
  deriving DecidableEq, Repr

namespace Outcome

/-- All that is written beside the result, with the times of events. -/
def stderr (time : String) (o : Outcome) : String :=
  String.join (o.events.map fun e => if o.logJson then e.json time else e.text time) ++ o.report

end Outcome

/-- The steps of a run, which report events and may fail. -/
abbrev Steps := ExceptT Failure (StateM (List Log.Event))

namespace Steps

/-- Reports an event. -/
def report (level : Log.Level) (target message : String) : Steps Unit :=
  modify fun events => events ++ [⟨level, target, message⟩]

/-- Goes on unless there is an error. -/
def orFail {ε α : Type} (failure : ε → Failure) : Except ε α → Steps α
  | .ok x => pure x
  | .error e => throw (failure e)

end Steps

namespace Command

open Steps

/-- The parts of the program that report events. -/
def mainTarget : String := "kubeconfig_secret"

/-- The part that turns kubeconfigs into secrets and back. -/
def conversionTarget : String := "kubeconfig_secret::adapters::kubeconfig_secret"

/-- The part that resolves kubeconfigs. -/
def resolutionTarget : String := "kubeconfig_secret::adapters::client_config"

/-- What could not be done with a kubeconfig. -/
def inContext (message : String) (e : KubeconfigError) : Failure :=
  ⟨message, e.message :: e.causes⟩

/-- The kubeconfig to encode. -/
def readKubeconfig (w : World) (path : Option String) : Except Failure Kubeconfig :=
  match path with
  | some path =>
    (Kubeconfig.readFile w.disk path).mapError (inContext ("Failed to read kubeconfig " ++ path))
  | none =>
    (Kubeconfig.readDefault w.disk w.env).mapError (inContext "Failed to read default kubeconfig")

/-- The path of the manifest to decode; the standard input has none. -/
def manifestPath? (file : Option String) : Option String :=
  file.filter fun path => path != "-"

/-- The manifest to decode. -/
def readManifest (w : World) (file : Option String) : Except Failure String :=
  match manifestPath? file with
  | some path =>
    (w.disk.readText path).mapError fun fault => ⟨"Failed to read " ++ path, [fault.message]⟩
  | none =>
    (Disk.textOf w.stdin).mapError fun fault =>
      ⟨"Failed to read secret manifest from stdin", [fault.message]⟩

/-- Encodes a kubeconfig: the manifest of the secret. -/
def encodeSteps (w : World) (r : SecretRef) (path : Option String) (output : ManifestFormat) :
    Steps String := do
  let kubeconfig ← orFail id (readKubeconfig w path)
  report .debug conversionTarget
    ("Encoded kubeconfig into secret " ++ r.text ++ " (" ++
      toString kubeconfig.render.utf8ByteSize ++ " bytes)")
  report .info mainTarget ("Encoded kubeconfig into secret " ++ r.text)
  pure ((kubeconfig.toSecret r).render output)

/-- Resolves a decoded kubeconfig. -/
def verifySteps (w : World) (h : SecretKubeconfig) (context : Option String) : Steps Unit := do
  let config ← orFail .ofError (h.clientConfig w.disk w.env { Selection.default with context })
  report .debug resolutionTarget
    ("Resolved client configuration from secret " ++ h.secret.text ++ ": cluster=" ++
      config.clusterUrl.text)
  report .info mainTarget
    ("Secret " ++ h.secret.text ++ " resolves to cluster " ++ config.clusterUrl.text ++
      " (namespace " ++ config.defaultNamespace ++ ")")

/-- Decodes a kubeconfig: its text. -/
def decodeSteps (w : World) (file : Option String) (key : String) (verify : Bool)
    (context : Option String) : Steps String := do
  let text ← orFail id (readManifest w file)
  let secret ← orFail .ofError (Secret.ofManifest text)
  let handle ← orFail .ofError (SecretKubeconfig.ofSecret secret key)
  report .debug conversionTarget
    ("Decoded kubeconfig from secret " ++ handle.secret.text ++ " key " ++ Text.quote key)
  if verify then verifySteps w handle context
  pure handle.kubeconfig.render

/-- The steps of a command. -/
def steps (w : World) : Command → Steps String
  | .encode name «namespace» kubeconfig output =>
    encodeSteps w ⟨«namespace», name⟩ kubeconfig output
  | .decode file key verify context => decodeSteps w file key verify context

end Command

namespace Outcome

/-- The outcome of a page. -/
def ofText (text : String) : Outcome := ⟨0, text, [], false, ""⟩

/-- The outcome of arguments that make no sense. -/
def refusal (text : String) : Outcome := ⟨2, "", [], false, text⟩

/-- The outcome of an invocation. -/
def ofInvocation (w : World) (i : Invocation) : Outcome :=
  let (result, events) := (i.command.steps w).run.run []
  let shown := events.filter (Log.Filter.ofEnv w.env).shows
  match result with
  | .ok text => ⟨0, text, shown, i.logJson, ""⟩
  | .error failure => ⟨1, "", shown, i.logJson, failure.report⟩

/-- The outcome of what arguments ask for. -/
def ofDemand (w : World) : Demand → Outcome
  | .run invocation => ofInvocation w invocation
  | .page page => ofText (page.text w.env)
  | .version => ofText Page.versionText
  | .guidance => refusal (Page.text w.env .program)
  | .refuse error => refusal ("error: " ++ error.message ++ "\n")

end Outcome

/-- Runs the program. -/
def run (w : World) (args : List String) : Outcome :=
  .ofDemand w (.ofArgs w.env args)

/-! ## What a run needs to know -/

/-- The variables of the environment that a run looks at. -/
def environmentNames : List String :=
  ["KUBECONFIG", "HOME", keyVariable, "RUST_LOG", "HTTP_PROXY", "HTTPS_PROXY"]

namespace Command

/-- The command reads the standard input. -/
def readsStdin : Command → Bool
  | .encode .. => false
  | .decode file .. => (manifestPath? file).isNone

/-- The file with the certificates of authorities that a manifest leads to. -/
def authoritiesPath? (w : World) (file : Option String) (key : String) (context : Option String) :
    Option String := do
  let text ← (readManifest w file).toOption
  let secret ← (Secret.ofManifest text).toOption
  let handle ← (SecretKubeconfig.ofSecret secret key).toOption
  let selected ← (handle.kubeconfig.select { Selection.default with context }).toOption
  selected.cluster.certificateAuthority

/-- The files that a command reads, as far as the files known so far tell. -/
def files (w : World) : Command → List String
  | .encode _ _ (some path) _ => [path]
  | .encode _ _ none _ =>
    match Kubeconfig.pathsIn w.env with
    | [] => ((w.env "HOME").map Kubeconfig.defaultPath).toList
    | paths => paths
  | .decode file key verify context =>
    (manifestPath? file).toList ++
      (if verify then (authoritiesPath? w file key context).toList else [])

end Command

/-- The command that arguments ask for, if they ask for one. -/
def command? (env : String → Option String) (args : List String) : Option Command :=
  match Demand.ofArgs env args with
  | .run invocation => some invocation.command
  | _ => none

end ConfigVault.Cli
