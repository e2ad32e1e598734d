import InlineImpact.Benchmark
import InlineImpact.Benchmark.Command
import InlineImpact.Benchmark.Run
import InlineImpact.Calendar
import InlineImpact.Capture
import InlineImpact.Capture.Aggregate
import InlineImpact.Capture.Probe
import InlineImpact.CommandLine
import InlineImpact.CommandLine.Request
import InlineImpact.Configuration
import InlineImpact.Csv
import InlineImpact.Dataset
import InlineImpact.Dataset.Columns
import InlineImpact.Dataset.Row
import InlineImpact.Datum
import InlineImpact.Decimal.Binary
import InlineImpact.Decimal.Rounding
import InlineImpact.Decimal.Shortest
import InlineImpact.Decision
import InlineImpact.Digest
import InlineImpact.Estimate
import InlineImpact.Exploration
import InlineImpact.Exploration.Measure
import InlineImpact.Exploration.Process
import InlineImpact.Exploration.Report
import InlineImpact.Exploration.Root
import InlineImpact.Exploration.Session
import InlineImpact.Failure
import InlineImpact.Forest
import InlineImpact.Forest.Dump
import InlineImpact.Forest.Extract
import InlineImpact.Forest.Load
import InlineImpact.Forest.Reader
import InlineImpact.Json
import InlineImpact.Json.Reader
import InlineImpact.Keyed
import InlineImpact.Main
import InlineImpact.Markup.Hedge
import InlineImpact.Markup.Name
import InlineImpact.Markup.Reader
import InlineImpact.Markup.Scope
import InlineImpact.Markup.Writer
import InlineImpact.Measurement
import InlineImpact.MethodId
import InlineImpact.Options
import InlineImpact.Path
import InlineImpact.Proofs.Agreement
import InlineImpact.Proofs.Benchmark
import InlineImpact.Proofs.Benchmark.Ending
import InlineImpact.Proofs.Benchmark.Failure
import InlineImpact.Proofs.Benchmark.Words
import InlineImpact.Proofs.Capture.Aggregate
import InlineImpact.Proofs.Capture.Attribution
import InlineImpact.Proofs.Capture.Lines
import InlineImpact.Proofs.Capture.Lookup
import InlineImpact.Proofs.Capture.Naming
import InlineImpact.Proofs.Capture.Rearrangement
import InlineImpact.Proofs.Capture.Records
import InlineImpact.Proofs.Configuration
import InlineImpact.Proofs.Configuration.Naming
import InlineImpact.Proofs.Csv
import InlineImpact.Proofs.Dataset
import InlineImpact.Proofs.Dataset.Kinds
import InlineImpact.Proofs.Dataset.RoundTrip
import InlineImpact.Proofs.Dataset.Schema
import InlineImpact.Proofs.Dataset.Sessions
import InlineImpact.Proofs.Dataset.Sources
import InlineImpact.Proofs.Decimal.Order
import InlineImpact.Proofs.Decimal.Quotient
import InlineImpact.Proofs.Decimal.Range
import InlineImpact.Proofs.Estimate
import InlineImpact.Proofs.Exploration.Abort
import InlineImpact.Proofs.Exploration.Abreast
import InlineImpact.Proofs.Exploration.Account
import InlineImpact.Proofs.Exploration.Containment
import InlineImpact.Proofs.Exploration.Course
import InlineImpact.Proofs.Exploration.Coverage
import InlineImpact.Proofs.Exploration.Deduplication
import InlineImpact.Proofs.Exploration.Economy
import InlineImpact.Proofs.Exploration.Enclosure
import InlineImpact.Proofs.Exploration.Enumeration
import InlineImpact.Proofs.Exploration.Fault
import InlineImpact.Proofs.Exploration.Freshness
import InlineImpact.Proofs.Exploration.Interruption
import InlineImpact.Proofs.Exploration.Isolation
import InlineImpact.Proofs.Exploration.Journal
import InlineImpact.Proofs.Exploration.LastAttempt
import InlineImpact.Proofs.Exploration.Ledger
import InlineImpact.Proofs.Exploration.Memory
import InlineImpact.Proofs.Exploration.Operation
import InlineImpact.Proofs.Exploration.Pairing
import InlineImpact.Proofs.Exploration.Process
import InlineImpact.Proofs.Exploration.Regime
import InlineImpact.Proofs.Exploration.Repetition
import InlineImpact.Proofs.Exploration.Reporting
import InlineImpact.Proofs.Exploration.Schedule
import InlineImpact.Proofs.Exploration.ShortCircuit
import InlineImpact.Proofs.Exploration.Step
import InlineImpact.Proofs.Exploration.Survey
import InlineImpact.Proofs.Exploration.Tally
import InlineImpact.Proofs.Exploration.Total
import InlineImpact.Proofs.Exploration.Workable
import InlineImpact.Proofs.Forest
import InlineImpact.Proofs.Forest.Bound
import InlineImpact.Proofs.Forest.Excerpt
import InlineImpact.Proofs.Forest.Acceptance
import InlineImpact.Proofs.Forest.Classification
import InlineImpact.Proofs.Forest.Extract
import InlineImpact.Proofs.Forest.Nesting
import InlineImpact.Proofs.Forest.Load
import InlineImpact.Proofs.Forest.Log
import InlineImpact.Proofs.Forest.Rearrangement
import InlineImpact.Proofs.Forest.RoundTrip
import InlineImpact.Proofs.Forest.Substitution
import InlineImpact.Proofs.Json.RoundTrip
import InlineImpact.Proofs.Keyed
import InlineImpact.Proofs.Markup.RoundTrip
import InlineImpact.Proofs.MethodId
import InlineImpact.Proofs.Noise
import InlineImpact.Proofs.Outcome
import InlineImpact.Proofs.Path
import InlineImpact.Proofs.Random
import InlineImpact.Proofs.Replay
import InlineImpact.Proofs.Replay.Archive
import InlineImpact.Proofs.Replay.Canonical
import InlineImpact.Proofs.Replay.Restoration
import InlineImpact.Proofs.Replay.Storage
import InlineImpact.Proofs.Template
import InlineImpact.Proofs.Text.Hex
import InlineImpact.Proofs.Text.Lines
import InlineImpact.Proofs.Text.Numeral
import InlineImpact.Proofs.Text.Parts
import InlineImpact.Proofs.Text.Spelling
import InlineImpact.Proofs.Text.Utf8
import InlineImpact.Proofs.Tree.BreadthFirst
import InlineImpact.Proofs.Tree.Edit
import InlineImpact.Proofs.Tree.Formation
import InlineImpact.Proofs.Tree.Growth
import InlineImpact.Proofs.Tree.Listing
import InlineImpact.Proofs.Tree.Naming
import InlineImpact.Proofs.Tree.Parents
import InlineImpact.Proofs.Workspace
import InlineImpact.Proofs.Workspace.Content
import InlineImpact.Proofs.Workspace.Directory
import InlineImpact.Proofs.Workspace.Renewal
import InlineImpact.Quantity
import InlineImpact.Random
import InlineImpact.Rehearsal
import InlineImpact.Replay
import InlineImpact.Settings
import InlineImpact.Settings.Environment
import InlineImpact.Settings.Options
import InlineImpact.Shell.Arithmetic
import InlineImpact.Shell.Builtin
import InlineImpact.Shell.Expansion
import InlineImpact.Shell.Field
import InlineImpact.Shell.Pattern
import InlineImpact.Shell.Program
import InlineImpact.Shell.Run
import InlineImpact.Shell.Script
import InlineImpact.Shell.Script.Reader
import InlineImpact.Shell.State
import InlineImpact.Shell.Step
import InlineImpact.Shell.Token
import InlineImpact.Shell.Tool
import InlineImpact.Shell.Tool.Files
import InlineImpact.Shell.Tool.Lines
import InlineImpact.Shell.Tool.Print
import InlineImpact.Shell.Tool.Test
import InlineImpact.Statistics
import InlineImpact.Suite
import InlineImpact.Template
import InlineImpact.Template.Layout
import InlineImpact.Text.Base64
import InlineImpact.Text.Blank
import InlineImpact.Text.Digit
import InlineImpact.Text.Lines
import InlineImpact.Text.Numeral
import InlineImpact.Text.Printable
import InlineImpact.Text.Quoted
import InlineImpact.Text.Ranges
import InlineImpact.Text.Utf8
import InlineImpact.Text.Word
import InlineImpact.Tree
import InlineImpact.Workspace
import InlineImpact.Yaml
import InlineImpact.Yaml.Cursor
import InlineImpact.Yaml.Fault
import InlineImpact.Yaml.Kind
import InlineImpact.Yaml.Node
import InlineImpact.Yaml.Scalar
import InlineImpact.Yaml.Timestamp
import InlineImpact.Yaml.Token
import InlineImpact.Yaml.Value
import InlineImpact.Proofs.Forest.Substitution
