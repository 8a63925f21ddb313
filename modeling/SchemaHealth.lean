import SchemaHealth.BlastRadius.Analysis
import SchemaHealth.BlastRadius.Policy
import SchemaHealth.CommandLine.Action
import SchemaHealth.CommandLine.Arguments
import SchemaHealth.CommandLine.Error
import SchemaHealth.CommandLine.Invocation
import SchemaHealth.CommandLine.Run
import SchemaHealth.CommandLine.Values
import SchemaHealth.Cycle.Basic
import SchemaHealth.Cycle.Report
import SchemaHealth.Cycle.Search
import SchemaHealth.Decimal.Double
import SchemaHealth.Decimal.Numeral
import SchemaHealth.Decimal.Printed
import SchemaHealth.Decimal.Rounding
import SchemaHealth.Decimal.Shortest
import SchemaHealth.Dictionary
import SchemaHealth.Graph.Basic
import SchemaHealth.Graph.Components
import SchemaHealth.Graph.Distinct
import SchemaHealth.Graph.Reach
import SchemaHealth.Graph.References
import SchemaHealth.Graph.RequiredReads
import SchemaHealth.Graph.Table
import SchemaHealth.Graph.Visited
import SchemaHealth.Json.Parser
import SchemaHealth.Json.Printer
import SchemaHealth.Json.Record
import SchemaHealth.Json.Value
import SchemaHealth.Main
import SchemaHealth.Ordered
import SchemaHealth.Proofs.BlastRadius.Affected
import SchemaHealth.Proofs.BlastRadius.Monotone
import SchemaHealth.Proofs.BlastRadius.Projection
import SchemaHealth.Proofs.BlastRadius.Propagation
import SchemaHealth.Proofs.BlastRadius.Superseded
import SchemaHealth.Proofs.BlastRadius.Tiers
import SchemaHealth.Proofs.CommandLine.Quiet
import SchemaHealth.Proofs.CommandLine.Scoring
import SchemaHealth.Proofs.Cycle.Appended
import SchemaHealth.Proofs.Cycle.CallStack
import SchemaHealth.Proofs.Cycle.Canonical
import SchemaHealth.Proofs.Cycle.Completeness
import SchemaHealth.Proofs.Cycle.Found
import SchemaHealth.Proofs.Cycle.Groups
import SchemaHealth.Proofs.Cycle.Interconnected
import SchemaHealth.Proofs.Cycle.Loops
import SchemaHealth.Proofs.Cycle.Rotation
import SchemaHealth.Proofs.Cycle.SearchInvariant
import SchemaHealth.Proofs.Cycle.SearchRun
import SchemaHealth.Proofs.Cycle.Soundness
import SchemaHealth.Proofs.Cycle.Statistics
import SchemaHealth.Proofs.Decimal.Finite
import SchemaHealth.Proofs.Decimal.Scaled
import SchemaHealth.Proofs.DictionaryCounts
import SchemaHealth.Proofs.DictionaryKeys
import SchemaHealth.Proofs.Graph.Building
import SchemaHealth.Proofs.Graph.Components
import SchemaHealth.Proofs.Graph.FieldTable
import SchemaHealth.Proofs.Graph.Grouping
import SchemaHealth.Proofs.Graph.Preorder
import SchemaHealth.Proofs.Graph.Reachability
import SchemaHealth.Proofs.Graph.ReferenceOrder
import SchemaHealth.Proofs.Graph.References
import SchemaHealth.Proofs.Graph.RequiredReads
import SchemaHealth.Proofs.Graph.Walks
import SchemaHealth.Proofs.Json.Record
import SchemaHealth.Proofs.Json.WellFormed
import SchemaHealth.Proofs.LastEntry
import SchemaHealth.Proofs.OrderedEntries
import SchemaHealth.Proofs.Report.Accounting
import SchemaHealth.Proofs.Report.RoundTrip
import SchemaHealth.Proofs.Rule.Bounded
import SchemaHealth.Proofs.Rule.EndingCases
import SchemaHealth.Proofs.Rule.Ignored
import SchemaHealth.Proofs.Rule.Isolation
import SchemaHealth.Proofs.Rule.Located
import SchemaHealth.Proofs.Rule.Places
import SchemaHealth.Proofs.Rule.Plurals
import SchemaHealth.Proofs.Rule.Reordered
import SchemaHealth.Proofs.Schema.Advancing
import SchemaHealth.Proofs.Schema.DeclaredTypes
import SchemaHealth.Proofs.Schema.DocumentText
import SchemaHealth.Proofs.Schema.Merged
import SchemaHealth.Proofs.Schema.Reading
import SchemaHealth.Proofs.Schema.Reordered
import SchemaHealth.Proofs.Schema.TypeText
import SchemaHealth.Proofs.Settings.Accepted
import SchemaHealth.Proofs.Settings.RuleEntries
import SchemaHealth.Proofs.Settings.RuleKey
import SchemaHealth.Proofs.Settings.SwitchedOff
import SchemaHealth.Proofs.Text.ByteOrder
import SchemaHealth.Proofs.Text.LowerCase
import SchemaHealth.Proofs.Toml.SingleKeys
import SchemaHealth.Proofs.Workspace.Written
import SchemaHealth.Render.AnalysisText
import SchemaHealth.Render.Format
import SchemaHealth.Render.Output
import SchemaHealth.Render.Paint
import SchemaHealth.Render.ReportText
import SchemaHealth.Report.Basic
import SchemaHealth.Report.Encoding
import SchemaHealth.Report.Location
import SchemaHealth.Report.Severity
import SchemaHealth.Report.Timestamp
import SchemaHealth.Rule.Assessment
import SchemaHealth.Rule.Basic
import SchemaHealth.Rule.Battery
import SchemaHealth.Rule.DeprecationReason
import SchemaHealth.Rule.Inflection
import SchemaHealth.Rule.PersonalData
import SchemaHealth.Rule.Score
import SchemaHealth.Schema.Document
import SchemaHealth.Schema.Grammar
import SchemaHealth.Schema.Lexeme
import SchemaHealth.Schema.Name
import SchemaHealth.Schema.Reader
import SchemaHealth.Schema.TypeRef
import SchemaHealth.Settings.Basic
import SchemaHealth.Settings.Collector
import SchemaHealth.Settings.Error
import SchemaHealth.Settings.File
import SchemaHealth.Settings.RuleName
import SchemaHealth.Settings.Tree
import SchemaHealth.Text.Blank
import SchemaHealth.Text.Case
import SchemaHealth.Text.CodePoint
import SchemaHealth.Text.Digit
import SchemaHealth.Text.Escape
import SchemaHealth.Text.Layout
import SchemaHealth.Text.Phrase
import SchemaHealth.Text.Word
import SchemaHealth.Toml.Lexeme
import SchemaHealth.Toml.Number
import SchemaHealth.Toml.Parser
import SchemaHealth.Toml.Value
import SchemaHealth.Workspace.Basic
import SchemaHealth.Workspace.FileError
