import GemGrid.Cli.Arguments
import GemGrid.Cli.Output
import GemGrid.Condition.Basic
import GemGrid.Condition.Error
import GemGrid.Condition.Parser
import GemGrid.Condition.Printer
import GemGrid.Condition.Token
import GemGrid.Diagnostic
import GemGrid.Digest.Sha256
import GemGrid.Grid.Cell
import GemGrid.Grid.Direction
import GemGrid.Grid.Map
import GemGrid.Grid.Position
import GemGrid.Grid.Reader
import GemGrid.Host
import GemGrid.Json.Basic
import GemGrid.Json.Draft
import GemGrid.Json.Numeral
import GemGrid.Json.Printer
import GemGrid.Json.Quoted
import GemGrid.Json.Reader
import GemGrid.Json.Schema
import GemGrid.Json.Token
import GemGrid.Json.Written
import GemGrid.Main
import GemGrid.OrderedMap
import GemGrid.Proofs.Condition.Grammar
import GemGrid.Proofs.Condition.Lexemes
import GemGrid.Proofs.Condition.RoundTrip
import GemGrid.Proofs.Condition.Shortest
import GemGrid.Proofs.Condition.Spelling
import GemGrid.Proofs.Grid.Contents
import GemGrid.Proofs.Grid.Keys
import GemGrid.Proofs.Grid.Layout
import GemGrid.Proofs.Grid.Normal
import GemGrid.Proofs.Grid.Reading
import GemGrid.Proofs.Grid.RoundTrip
import GemGrid.Proofs.Grid.Verdict
import GemGrid.Proofs.Json.Alike
import GemGrid.Proofs.OrderedMap
import GemGrid.Proofs.Report.Fingerprint
import GemGrid.Proofs.Report.Staged
import GemGrid.Proofs.Results
import GemGrid.Proofs.Run.Accounts
import GemGrid.Proofs.Run.Bounds
import GemGrid.Proofs.Run.Budget
import GemGrid.Proofs.Run.Ceiling
import GemGrid.Proofs.Run.Endings
import GemGrid.Proofs.Run.Events
import GemGrid.Proofs.Run.Guards
import GemGrid.Proofs.Run.Labels
import GemGrid.Proofs.Run.Limits
import GemGrid.Proofs.Run.Moves
import GemGrid.Proofs.Run.Records
import GemGrid.Proofs.Run.Replay
import GemGrid.Proofs.Run.Runs
import GemGrid.Proofs.Run.Sensors
import GemGrid.Proofs.Run.Unrolled
import GemGrid.Proofs.Run.Walk
import GemGrid.Proofs.Script.CallCheck
import GemGrid.Proofs.Script.CallGraph
import GemGrid.Proofs.Script.Callable
import GemGrid.Proofs.Script.CommentSearch
import GemGrid.Proofs.Script.Comments
import GemGrid.Proofs.Script.Counting
import GemGrid.Proofs.Script.ErrorPlaces
import GemGrid.Proofs.Script.Grammar
import GemGrid.Proofs.Script.Headers
import GemGrid.Proofs.Script.Layout
import GemGrid.Proofs.Script.LineTokens
import GemGrid.Proofs.Script.LoopForms
import GemGrid.Proofs.Script.Parsing
import GemGrid.Proofs.Script.Printing
import GemGrid.Proofs.Script.Programs
import GemGrid.Proofs.Script.Provenance
import GemGrid.Proofs.Script.Relexing
import GemGrid.Proofs.Script.Rounds
import GemGrid.Proofs.Script.Tokens
import GemGrid.Proofs.Script.Totals
import GemGrid.Proofs.Script.Unrolling
import GemGrid.Proofs.Source
import GemGrid.Proofs.Text
import GemGrid.Proofs.Wire.Grid
import GemGrid.Proofs.Wire.Lossless
import GemGrid.Proofs.Wire.Reading
import GemGrid.Proofs.Wire.Records
import GemGrid.Proofs.Wire.Script
import GemGrid.Reference
import GemGrid.Report.Basic
import GemGrid.Report.Text
import GemGrid.Run.Fault
import GemGrid.Run.Machine
import GemGrid.Run.Simulate
import GemGrid.Run.Trace
import GemGrid.Run.Walker
import GemGrid.Sample
import GemGrid.Script.Basic
import GemGrid.Script.Calls
import GemGrid.Script.Comment
import GemGrid.Script.Count
import GemGrid.Script.Error
import GemGrid.Script.Header
import GemGrid.Script.LoopCount
import GemGrid.Script.Parser
import GemGrid.Script.Token
import GemGrid.Source
import GemGrid.Text.Ascii
import GemGrid.Text.Blank
import GemGrid.Text.Decimal
import GemGrid.Text.Pieces
import GemGrid.Text.Place
import GemGrid.Wire.Decode
import GemGrid.Wire.Grid
import GemGrid.Wire.Report
import GemGrid.Wire.Run
import GemGrid.Wire.Script
