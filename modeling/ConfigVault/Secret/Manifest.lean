import ConfigVault.Error
import ConfigVault.Json.Printer
import ConfigVault.Secret.Codec
import ConfigVault.Yaml.Writer

/-!
# Manifests

The text of a secret, in one of two formats.  A manifest is read as YAML whatever it was written
as, because JSON is YAML too.

Taking a manifest in folds the texts beside the data into it (`Secret.foldStringData`).
-/

namespace ConfigVault

/-- A format of manifests. -/
inductive ManifestFormat where
  | yaml
  | json
  deriving DecidableEq, Repr

namespace Secret

/-- The text of a secret. -/
def render (s : Secret) : ManifestFormat → String
  | .yaml => Yaml.render s.toJson
  | .json => s.toJson.prettyText ++ "\n"

/-- The secret whose texts have become entries of its data, over those that were there. -/
def foldStringData (s : Secret) : Secret :=
  match s.stringData with
  | none => s
  | some texts =>
    { s with
      data := some <| (s.data.getD .empty).insertAll <|
        texts.entries.map fun e => (e.1, Text.Utf8.encodeString e.2)
      stringData := none }

/-- The secret that a manifest describes. -/
def ofManifest (text : String) : Except Error Secret :=
  match ofBytes (Text.Utf8.encodeString text) with
  | .ok s => .ok s.foldStringData
  | .error e => .error (.manifest ("Failed to parse secret: " ++ e.message))

end Secret

end ConfigVault
