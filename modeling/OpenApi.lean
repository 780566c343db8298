import OpenApi.Api
import OpenApi.Call
import OpenApi.Catalogue
import OpenApi.Client
import OpenApi.Codec
import OpenApi.Codec.Decode
import OpenApi.CommandLine
import OpenApi.Compilation
import OpenApi.Content
import OpenApi.Decimal.Binary64
import OpenApi.Decimal.Layout
import OpenApi.Decimal.Numeral
import OpenApi.Decimal.Shortest
import OpenApi.Defaults
import OpenApi.Document
import OpenApi.Entries
import OpenApi.Event
import OpenApi.Fault
import OpenApi.Field
import OpenApi.Inspection
import OpenApi.Json.Reader
import OpenApi.Json.Writer
import OpenApi.Main
import OpenApi.Naming.Argument
import OpenApi.Naming.Operation
import OpenApi.Naming.Words
import OpenApi.Operation
import OpenApi.Options
import OpenApi.Outcome
import OpenApi.Parameter
import OpenApi.Parameter.Brackets
import OpenApi.Path
import OpenApi.Pointer
import OpenApi.ProjectFile
import OpenApi.Proofs.Call.Arguments
import OpenApi.Proofs.Call.ByName
import OpenApi.Proofs.Call.Carried
import OpenApi.Proofs.Call.Cookies
import OpenApi.Proofs.Call.OwnHeaders
import OpenApi.Proofs.Call.Prepared
import OpenApi.Proofs.Call.Query
import OpenApi.Proofs.Call.Required
import OpenApi.Proofs.Call.Signature
import OpenApi.Proofs.Call.Sound
import OpenApi.Proofs.Call.Written
import OpenApi.Proofs.Client.Spaces
import OpenApi.Proofs.Codec.Accepts
import OpenApi.Proofs.Codec.Aliases
import OpenApi.Proofs.Codec.Dates
import OpenApi.Proofs.Codec.Fails
import OpenApi.Proofs.Codec.Failures
import OpenApi.Proofs.Codec.Flat
import OpenApi.Proofs.Codec.FlatMeaning
import OpenApi.Proofs.Codec.Literals
import OpenApi.Proofs.Codec.Merged
import OpenApi.Proofs.Codec.Notation
import OpenApi.Proofs.Codec.Unambiguous
import OpenApi.Proofs.Codec.Wire
import OpenApi.Proofs.Codec.Zulu
import OpenApi.Proofs.Compilation.Abandoned
import OpenApi.Proofs.Compilation.Agreeing
import OpenApi.Proofs.Compilation.Beside
import OpenApi.Proofs.Compilation.Bounded
import OpenApi.Proofs.Compilation.Coherent
import OpenApi.Proofs.Compilation.Complete
import OpenApi.Proofs.Compilation.Grounded
import OpenApi.Proofs.Compilation.Inlined
import OpenApi.Proofs.Compilation.Lasting
import OpenApi.Proofs.Compilation.Meaning
import OpenApi.Proofs.Compilation.Models
import OpenApi.Proofs.Compilation.Open
import OpenApi.Proofs.Compilation.Reachable
import OpenApi.Proofs.Compilation.Recompiled
import OpenApi.Proofs.Compilation.Results
import OpenApi.Proofs.Compilation.Runs
import OpenApi.Proofs.Compilation.Unambiguous
import OpenApi.Proofs.Decimal.Binary64
import OpenApi.Proofs.Decimal.Numeral
import OpenApi.Proofs.Defaults.Precedence
import OpenApi.Proofs.Entries
import OpenApi.Proofs.Induction
import OpenApi.Proofs.Json.Quoted
import OpenApi.Proofs.Key
import OpenApi.Proofs.Naming.Argument
import OpenApi.Proofs.Naming.CamelCase
import OpenApi.Proofs.Naming.Chosen
import OpenApi.Proofs.Naming.Model
import OpenApi.Proofs.Naming.Operation
import OpenApi.Proofs.Naming.Usable
import OpenApi.Proofs.Naming.Words
import OpenApi.Proofs.Operation.Agreeing
import OpenApi.Proofs.Operation.Filtered
import OpenApi.Proofs.Operation.Notation
import OpenApi.Proofs.Operation.Parameters
import OpenApi.Proofs.Operation.WrittenOut
import OpenApi.Proofs.Parameter.Brackets
import OpenApi.Proofs.Parameter.Kept
import OpenApi.Proofs.Parameter.Merged
import OpenApi.Proofs.Pointer.Misses
import OpenApi.Proofs.Pointer.Paths
import OpenApi.Proofs.Query.Deep
import OpenApi.Proofs.Query.Delimited
import OpenApi.Proofs.Query.Exploded
import OpenApi.Proofs.Query.Fields
import OpenApi.Proofs.Query.Joined
import OpenApi.Proofs.Query.Nulls
import OpenApi.Proofs.Query.Repeated
import OpenApi.Proofs.Query.Separated
import OpenApi.Proofs.References
import OpenApi.Proofs.Register
import OpenApi.Proofs.Request.Headers
import OpenApi.Proofs.Request.Precedence
import OpenApi.Proofs.Response.Bodies
import OpenApi.Proofs.Response.Outcomes
import OpenApi.Proofs.Response.Union
import OpenApi.Proofs.Schema.Closed
import OpenApi.Proofs.Schema.NullTwice
import OpenApi.Proofs.Schema.Open
import OpenApi.Proofs.Schema.Recompiled
import OpenApi.Proofs.Schema.Regular
import OpenApi.Proofs.Schema.Related
import OpenApi.Proofs.Session.Contexts
import OpenApi.Proofs.Text.LetterCase
import OpenApi.Proofs.Text.Pattern
import OpenApi.Proofs.Text.Percent
import OpenApi.Proofs.Text.Runs
import OpenApi.Proofs.Text.Utf8
import OpenApi.Proofs.Time.IsoText
import OpenApi.Proofs.Time.ZeroOffset
import OpenApi.Proofs.Url.Places
import OpenApi.Proofs.Url.Segments
import OpenApi.Proofs.Url.Template
import OpenApi.Proofs.Value.Alike
import OpenApi.Proofs.Value.Equal
import OpenApi.Proofs.Value.Nulls
import OpenApi.Proofs.Value.Replaced
import OpenApi.Proofs.Value.Wire
import OpenApi.Query
import OpenApi.Register
import OpenApi.Report
import OpenApi.Request
import OpenApi.Response
import OpenApi.Schema
import OpenApi.Session
import OpenApi.Signature
import OpenApi.Source
import OpenApi.Surroundings
import OpenApi.Text.Classes
import OpenApi.Text.Identifier
import OpenApi.Text.LetterCase
import OpenApi.Text.Percent
import OpenApi.Text.Pieces
import OpenApi.Text.Printable
import OpenApi.Text.Quoted
import OpenApi.Text.Utf8
import OpenApi.Time.Calendar
import OpenApi.Time.IsoText
import OpenApi.Url.Join
import OpenApi.Url.Placeholder
import OpenApi.Url.Template
import OpenApi.Value
import OpenApi.Value.Text
import OpenApi.Yaml.Block
import OpenApi.Yaml.Cursor
import OpenApi.Yaml.Node
import OpenApi.Yaml.Plain
import OpenApi.Yaml.Quoted
import OpenApi.Yaml.Reader
import OpenApi.Yaml.Resolve
