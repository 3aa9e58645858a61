import ConfigVault.Cli.Command
import ConfigVault.Cli.Help
import ConfigVault.Cli.Log
import ConfigVault.Cli.Options
import ConfigVault.Cli.Run
import ConfigVault.Client.Config
import ConfigVault.Client.Uri
import ConfigVault.Codec.Basic
import ConfigVault.Codec.Json
import ConfigVault.Codec.Mismatch
import ConfigVault.Codec.Reading
import ConfigVault.Codec.Record
import ConfigVault.Disk
import ConfigVault.Error
import ConfigVault.Json.Basic
import ConfigVault.Json.Printer
import ConfigVault.Kubeconfig.Basic
import ConfigVault.Kubeconfig.Codec
import ConfigVault.Kubeconfig.Error
import ConfigVault.Kubeconfig.Load
import ConfigVault.Kubeconfig.Merge
import ConfigVault.Main
import ConfigVault.Number.Binary64
import ConfigVault.Number.Shortest
import ConfigVault.Proofs.Cli.Log
import ConfigVault.Proofs.Cli.Run
import ConfigVault.Proofs.Cli.Steps
import ConfigVault.Proofs.Client.Select
import ConfigVault.Proofs.Client.Unselected
import ConfigVault.Proofs.Codec.Basic
import ConfigVault.Proofs.Codec.Concur
import ConfigVault.Proofs.Codec.Document
import ConfigVault.Proofs.Codec.Json
import ConfigVault.Proofs.Codec.Reading
import ConfigVault.Proofs.Codec.Record
import ConfigVault.Proofs.Codec.Texts
import ConfigVault.Proofs.Codec.Through
import ConfigVault.Proofs.Error
import ConfigVault.Proofs.Json.Basic
import ConfigVault.Proofs.Kubeconfig.Codec
import ConfigVault.Proofs.Kubeconfig.Concur
import ConfigVault.Proofs.Kubeconfig.FixedPoint
import ConfigVault.Proofs.Kubeconfig.Listing
import ConfigVault.Proofs.Kubeconfig.Load
import ConfigVault.Proofs.Kubeconfig.Octets
import ConfigVault.Proofs.Kubeconfig.Same
import ConfigVault.Proofs.Maps
import ConfigVault.Proofs.Number.Binary64
import ConfigVault.Proofs.Number.Shortest
import ConfigVault.Proofs.Secret.Codec
import ConfigVault.Proofs.Secret.JsonManifest
import ConfigVault.Proofs.Secret.Manifest
import ConfigVault.Proofs.Secret.StringData
import ConfigVault.Proofs.Secret.Texts
import ConfigVault.Proofs.Secret.Timestamp
import ConfigVault.Proofs.Secret.Written
import ConfigVault.Proofs.SecretErrors
import ConfigVault.Proofs.SecretKubeconfig
import ConfigVault.Proofs.Text.Base64
import ConfigVault.Proofs.Text.Escape
import ConfigVault.Proofs.Text.Utf8
import ConfigVault.Proofs.Yaml.Document
import ConfigVault.Proofs.Yaml.JsonDocument
import ConfigVault.Proofs.Yaml.Layout
import ConfigVault.Proofs.Yaml.Lines
import ConfigVault.Proofs.Yaml.MaskedNull
import ConfigVault.Proofs.Yaml.Means
import ConfigVault.Proofs.Yaml.Node.Block
import ConfigVault.Proofs.Yaml.Node.Shows
import ConfigVault.Proofs.Yaml.Number
import ConfigVault.Proofs.Yaml.Resolve
import ConfigVault.Proofs.Yaml.ShownValue
import ConfigVault.Proofs.Yaml.Source
import ConfigVault.Proofs.Yaml.Style
import ConfigVault.Proofs.Yaml.Token.Block
import ConfigVault.Proofs.Yaml.Token.BlockScalar
import ConfigVault.Proofs.Yaml.Token.Lexer
import ConfigVault.Proofs.Yaml.Token.Plain
import ConfigVault.Proofs.Yaml.Token.Quoted
import ConfigVault.Proofs.Yaml.Value
import ConfigVault.Proofs.Yaml.Writer
import ConfigVault.Secret.Basic
import ConfigVault.Secret.Codec
import ConfigVault.Secret.Manifest
import ConfigVault.Secret.Ref
import ConfigVault.Secret.Timestamp
import ConfigVault.SecretKubeconfig
import ConfigVault.SortedMap
import ConfigVault.StringTable
import ConfigVault.Text.Base64
import ConfigVault.Text.Escape
import ConfigVault.Text.Extending
import ConfigVault.Text.MalformedUtf8
import ConfigVault.Text.Pem
import ConfigVault.Text.Unprintable
import ConfigVault.Text.Utf8
import ConfigVault.Text.WhiteSpace
import ConfigVault.Yaml.Cursor
import ConfigVault.Yaml.Document
import ConfigVault.Yaml.Mark
import ConfigVault.Yaml.Node
import ConfigVault.Yaml.Node.OfTokens
import ConfigVault.Yaml.Resolve
import ConfigVault.Yaml.Scalar
import ConfigVault.Yaml.Source
import ConfigVault.Yaml.Style
import ConfigVault.Yaml.SyntaxError
import ConfigVault.Yaml.Token
import ConfigVault.Yaml.Token.BlockScalar
import ConfigVault.Yaml.Token.Gap
import ConfigVault.Yaml.Token.Lexer
import ConfigVault.Yaml.Token.Plain
import ConfigVault.Yaml.Token.Quoted
import ConfigVault.Yaml.Token.Tag
import ConfigVault.Yaml.Value
import ConfigVault.Yaml.Writer
