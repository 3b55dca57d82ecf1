import ExprCheck.Batch
import ExprCheck.Check
import ExprCheck.Console.Arguments
import ExprCheck.Console.Filter
import ExprCheck.Console.Run
import ExprCheck.Grammar.Fault
import ExprCheck.Grammar.Recognizer
import ExprCheck.Json.Reader
import ExprCheck.Json.Value
import ExprCheck.Json.Writer
import ExprCheck.Limits
import ExprCheck.Log.Code
import ExprCheck.Log.Desk
import ExprCheck.Log.Event
import ExprCheck.Log.Level
import ExprCheck.Log.Service
import ExprCheck.Main
import ExprCheck.Moment
import ExprCheck.Notice
import ExprCheck.Notice.Event
import ExprCheck.Number.Layout
import ExprCheck.Number.Reading
import ExprCheck.Number.Shortest
import ExprCheck.Proofs.Batch.Join
import ExprCheck.Proofs.Batch.Lines
import ExprCheck.Proofs.Check.Blanks
import ExprCheck.Proofs.Check.Counts
import ExprCheck.Proofs.Check.Events
import ExprCheck.Proofs.Check.Quiet
import ExprCheck.Proofs.Check.Reckoning
import ExprCheck.Proofs.Check.Reports
import ExprCheck.Proofs.Console.Sources
import ExprCheck.Proofs.Console.Status
import ExprCheck.Proofs.Grammar.Balance
import ExprCheck.Proofs.Grammar.Closure
import ExprCheck.Proofs.Grammar.DepthBounds
import ExprCheck.Proofs.Grammar.Derivation
import ExprCheck.Proofs.Grammar.Descent
import ExprCheck.Proofs.Grammar.FaultCodes
import ExprCheck.Proofs.Grammar.Lookahead
import ExprCheck.Proofs.Grammar.NestingLimit
import ExprCheck.Proofs.Grammar.OnePass
import ExprCheck.Proofs.Grammar.Recognition
import ExprCheck.Proofs.Grammar.Requests
import ExprCheck.Proofs.Grammar.Tasks
import ExprCheck.Proofs.Grammar.TextProgram
import ExprCheck.Proofs.Grammar.Trace
import ExprCheck.Proofs.Grammar.ViablePrefix
import ExprCheck.Proofs.Json.Numerals
import ExprCheck.Proofs.Json.OneLine
import ExprCheck.Proofs.Json.RoundTrip
import ExprCheck.Proofs.Json.Strings
import ExprCheck.Proofs.Log.Details
import ExprCheck.Proofs.Log.Events
import ExprCheck.Proofs.Log.Memories
import ExprCheck.Proofs.Report.RoundTrip
import ExprCheck.Proofs.Settings.Layers
import ExprCheck.Proofs.Settings.RoundTrip
import ExprCheck.Proofs.Source.Excerpt
import ExprCheck.Proofs.Token.Calls
import ExprCheck.Proofs.Token.Counts
import ExprCheck.Proofs.Token.Places
import ExprCheck.Proofs.Token.Reading
import ExprCheck.Proofs.Toml.Documents
import ExprCheck.Report
import ExprCheck.Report.Json
import ExprCheck.Settings
import ExprCheck.Settings.Document
import ExprCheck.Settings.Environment
import ExprCheck.Settings.Fault
import ExprCheck.Source.Excerpt
import ExprCheck.Source.Span
import ExprCheck.Text.Bytes
import ExprCheck.Text.Characters
import ExprCheck.Text.Lines
import ExprCheck.Text.Terminal
import ExprCheck.Time.Date
import ExprCheck.Time.Instant
import ExprCheck.Token
import ExprCheck.Token.Analyzer
import ExprCheck.Token.Scanner
import ExprCheck.Token.Stream
import ExprCheck.Toml.Item
import ExprCheck.Toml.Quoted
import ExprCheck.Toml.Reader
import ExprCheck.Toml.Scalar
