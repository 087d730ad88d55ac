import ResourceCli.Alias.Basic
import ResourceCli.Alias.Store
import ResourceCli.Call.Basic
import ResourceCli.Call.Command
import ResourceCli.Call.Reading
import ResourceCli.Call.Request
import ResourceCli.CommandLine.Basic
import ResourceCli.CommandLine.Fault
import ResourceCli.CommandLine.Help
import ResourceCli.CommandLine.Likely
import ResourceCli.CommandLine.Reading
import ResourceCli.CommandLine.Usage
import ResourceCli.Document.Basic
import ResourceCli.Document.Flags
import ResourceCli.Document.Read
import ResourceCli.Document.Schema
import ResourceCli.Document.Typed
import ResourceCli.Document.Written
import ResourceCli.Exchange.Header
import ResourceCli.Exchange.Load
import ResourceCli.Exchange.Send
import ResourceCli.Exchange.Service
import ResourceCli.Exchange.Status
import ResourceCli.Exchange.Wire
import ResourceCli.Failure.Basic
import ResourceCli.Failure.Message
import ResourceCli.Failure.Report
import ResourceCli.File.Disk
import ResourceCli.File.Path
import ResourceCli.Input.Basic
import ResourceCli.Input.Record
import ResourceCli.Input.Value
import ResourceCli.Json.Basic
import ResourceCli.Json.Fault
import ResourceCli.Json.Read
import ResourceCli.Json.Scan
import ResourceCli.Log.Event
import ResourceCli.Log.Filter
import ResourceCli.Log.Line
import ResourceCli.Main
import ResourceCli.Number.Binary64
import ResourceCli.Number.Shortest
import ResourceCli.Number.Text
import ResourceCli.Program.Basic
import ResourceCli.Program.Conversion
import ResourceCli.Program.Core
import ResourceCli.Program.Options
import ResourceCli.Program.Target
import ResourceCli.Resource.Annotated
import ResourceCli.Resource.Basic
import ResourceCli.Resource.Graph
import ResourceCli.Resource.Likeness
import ResourceCli.Resource.Pattern
import ResourceCli.Resource.Survey
import ResourceCli.Run.Basic
import ResourceCli.Run.Logged
import ResourceCli.Run.World
import ResourceCli.Shape.Basic
import ResourceCli.Shape.Json
import ResourceCli.Shape.Toml
import ResourceCli.Shape.Yaml
import ResourceCli.Text.Blank
import ResourceCli.Text.Case
import ResourceCli.Text.CaseTable
import ResourceCli.Text.Hex
import ResourceCli.Text.HiddenTable
import ResourceCli.Text.Printable
import ResourceCli.Text.Quoted
import ResourceCli.Text.Split
import ResourceCli.Text.Utf8
import ResourceCli.Text.Word
import ResourceCli.Toml.Basic
import ResourceCli.Toml.Read
import ResourceCli.Toml.Scalar
import ResourceCli.Toml.Scan
import ResourceCli.Toml.Write
import ResourceCli.Url.Address
import ResourceCli.Url.Basic
import ResourceCli.Url.Host
import ResourceCli.Url.Percent
import ResourceCli.Url.Punycode
import ResourceCli.Url.Read
import ResourceCli.Yaml.Cursor
import ResourceCli.Yaml.Node
import ResourceCli.Yaml.Scalar
import ResourceCli.Yaml.Token
import ResourceCli.Proofs.Alias.Store
import ResourceCli.Proofs.Annotated.Clashes
import ResourceCli.Proofs.Annotated.Fixpoint
import ResourceCli.Proofs.Annotated.Paths
import ResourceCli.Proofs.Annotated.Reading
import ResourceCli.Proofs.Annotated.References
import ResourceCli.Proofs.Annotated.Resurvey
import ResourceCli.Proofs.Annotated.Roundtrip
import ResourceCli.Proofs.Call.Accepted
import ResourceCli.Proofs.Call.Agreement
import ResourceCli.Proofs.Call.Body
import ResourceCli.Proofs.Call.Command
import ResourceCli.Proofs.Call.Compiled
import ResourceCli.Proofs.Call.Data
import ResourceCli.Proofs.Call.Flags
import ResourceCli.Proofs.Call.Levels
import ResourceCli.Proofs.Call.Placeholders
import ResourceCli.Proofs.Call.Prefix
import ResourceCli.Proofs.Call.Request
import ResourceCli.Proofs.Call.Single
import ResourceCli.Proofs.Call.Target
import ResourceCli.Proofs.CommandLine.Given
import ResourceCli.Proofs.CommandLine.Spelled
import ResourceCli.Proofs.CommandLine.Words
import ResourceCli.Proofs.Document.Chains
import ResourceCli.Proofs.Document.FlagLines
import ResourceCli.Proofs.Document.Flagged
import ResourceCli.Proofs.Document.Flags
import ResourceCli.Proofs.Yaml.Layout
import ResourceCli.Proofs.Yaml.Phrases
import ResourceCli.Proofs.Yaml.Literals
import ResourceCli.Proofs.Yaml.Tokens
import ResourceCli.Proofs.Yaml.Scanned
import ResourceCli.Proofs.Yaml.Built
import ResourceCli.Proofs.Document.Layouts
import ResourceCli.Proofs.Document.Turned
import ResourceCli.Proofs.Document.Members
import ResourceCli.Proofs.Document.Meant
import ResourceCli.Proofs.Document.References
import ResourceCli.Proofs.Document.Rewriting
import ResourceCli.Proofs.Document.Written
import ResourceCli.Proofs.Exchange.Sent
import ResourceCli.Proofs.File.Disk
import ResourceCli.Proofs.Input.Fields
import ResourceCli.Proofs.Input.Record
import ResourceCli.Proofs.Input.Value
import ResourceCli.Proofs.Json.Kept
import ResourceCli.Proofs.Json.Layout
import ResourceCli.Proofs.Json.Meaning
import ResourceCli.Proofs.Json.Numbers
import ResourceCli.Proofs.Json.Pieces
import ResourceCli.Proofs.Json.Reading
import ResourceCli.Proofs.Json.Shown
import ResourceCli.Proofs.Json.Source
import ResourceCli.Proofs.Json.Unique
import ResourceCli.Proofs.Number.Digits
import ResourceCli.Proofs.Number.Given
import ResourceCli.Proofs.Number.Kept
import ResourceCli.Proofs.Number.Rounding
import ResourceCli.Proofs.Number.Shortest
import ResourceCli.Proofs.Resource.Lossless
import ResourceCli.Proofs.Resource.MethodPath
import ResourceCli.Proofs.Resource.Path
import ResourceCli.Proofs.Run.Played
import ResourceCli.Proofs.Shape.Record
import ResourceCli.Proofs.Shape.Value
import ResourceCli.Proofs.Survey.Attachment
import ResourceCli.Proofs.Survey.Completeness
import ResourceCli.Proofs.Survey.Customs
import ResourceCli.Proofs.Survey.Deleted
import ResourceCli.Proofs.Survey.Dialects
import ResourceCli.Proofs.Survey.FirstPath
import ResourceCli.Proofs.Survey.Growth
import ResourceCli.Proofs.Survey.Hierarchy
import ResourceCli.Proofs.Survey.Kept
import ResourceCli.Proofs.Survey.Methods
import ResourceCli.Proofs.Survey.Names
import ResourceCli.Proofs.Survey.Outcome
import ResourceCli.Proofs.Survey.Patterns
import ResourceCli.Proofs.Survey.Placed
import ResourceCli.Proofs.Survey.Provenance
import ResourceCli.Proofs.Survey.Responses
import ResourceCli.Proofs.Survey.Visit
import ResourceCli.Proofs.Table
import ResourceCli.Proofs.Text.Cutting
import ResourceCli.Proofs.Text.Utf8
import ResourceCli.Proofs.Url.Below
import ResourceCli.Proofs.Url.Confined
import ResourceCli.Proofs.Url.Extended
import ResourceCli.Proofs.Url.Percent
import ResourceCli.Proofs.Url.Segments
import ResourceCli.Proofs.Exchange.Headers
import ResourceCli.Proofs.Exchange.Secrets
import ResourceCli.Proofs.Program.Precedence
import ResourceCli.Proofs.Survey.Depth
