import DscAudit.Check.Analyzer
import DscAudit.Check.Basic
import DscAudit.Check.Catalogue
import DscAudit.Check.Examples
import DscAudit.Check.Formatting
import DscAudit.Check.Manifest
import DscAudit.Check.Markdown
import DscAudit.Check.Parsing
import DscAudit.Check.PathLength
import DscAudit.Check.Resource
import DscAudit.Check.Run
import DscAudit.Check.Violation
import DscAudit.CommandLine.Answer
import DscAudit.CommandLine.Grammar
import DscAudit.CommandLine.Reading
import DscAudit.CommandLine.Request
import DscAudit.CommandLine.Word
import DscAudit.Config.Basic
import DscAudit.Config.Load
import DscAudit.Config.OptIn
import DscAudit.DataFile.Document
import DscAudit.DataFile.Token
import DscAudit.Decimal.Binary64
import DscAudit.Decimal.Reader
import DscAudit.Decimal.Shortest
import DscAudit.File.Path
import DscAudit.File.Volume
import DscAudit.File.Walk
import DscAudit.Host.Basic
import DscAudit.Host.Command
import DscAudit.Host.Failure
import DscAudit.Host.Log
import DscAudit.Host.Moment
import DscAudit.Json.Reader
import DscAudit.Json.Writer
import DscAudit.Main
import DscAudit.Manifest.Content
import DscAudit.Manifest.Entry
import DscAudit.PowerShell.Bracket
import DscAudit.PowerShell.Code
import DscAudit.PowerShell.Declaration
import DscAudit.PowerShell.Lexeme
import DscAudit.PowerShell.ParameterBlock
import DscAudit.Proofs.Check.Accounting
import DscAudit.Proofs.Check.Analyzer
import DscAudit.Proofs.Check.Composition
import DscAudit.Proofs.Check.Course
import DscAudit.Proofs.Check.Coverage
import DscAudit.Proofs.Check.Downgrade
import DscAudit.Proofs.Check.FailClosed
import DscAudit.Proofs.Check.Findings
import DscAudit.Proofs.Check.Invariant
import DscAudit.Proofs.Check.ManifestFields
import DscAudit.Proofs.Check.ManifestKeys
import DscAudit.Proofs.Check.Metric
import DscAudit.Proofs.Check.Offline
import DscAudit.Proofs.Check.OptIn
import DscAudit.Proofs.Check.Order
import DscAudit.Proofs.Check.Parsing
import DscAudit.Proofs.Check.PowerShellVersion
import DscAudit.Proofs.Check.Presentable
import DscAudit.Proofs.Check.ResourceFiles
import DscAudit.Proofs.Check.Scope
import DscAudit.Proofs.Check.Scripts
import DscAudit.Proofs.Check.Step
import DscAudit.Proofs.Check.Tabs
import DscAudit.Proofs.Check.Work
import DscAudit.Proofs.CommandLine.Analysis
import DscAudit.Proofs.CommandLine.Confinement
import DscAudit.Proofs.CommandLine.Reply
import DscAudit.Proofs.CommandLine.Verdict
import DscAudit.Proofs.Config.Merge
import DscAudit.Proofs.DataFile.Automaton
import DscAudit.Proofs.DataFile.Derivation
import DscAudit.Proofs.DataFile.Grammar
import DscAudit.Proofs.DataFile.Lexeme
import DscAudit.Proofs.DataFile.Location
import DscAudit.Proofs.DataFile.Mark
import DscAudit.Proofs.DataFile.Offset
import DscAudit.Proofs.DataFile.Reading
import DscAudit.Proofs.DataFile.RoundTrip
import DscAudit.Proofs.DataFile.Spelling
import DscAudit.Proofs.DataFile.Unambiguity
import DscAudit.Proofs.Decimal.Text
import DscAudit.Proofs.File.Directory
import DscAudit.Proofs.File.Path
import DscAudit.Proofs.File.Volume
import DscAudit.Proofs.File.Walk
import DscAudit.Proofs.Host.Attempt
import DscAudit.Proofs.Host.Effect
import DscAudit.Proofs.Host.Files
import DscAudit.Proofs.Host.Log
import DscAudit.Proofs.Host.Primitive
import DscAudit.Proofs.Host.Retry
import DscAudit.Proofs.Host.Settling
import DscAudit.Proofs.Json.Extent
import DscAudit.Proofs.Json.Reading
import DscAudit.Proofs.Json.RoundTrip
import DscAudit.Proofs.Manifest.Identifier
import DscAudit.Proofs.Manifest.Version
import DscAudit.Proofs.PowerShell.Arguments
import DscAudit.Proofs.PowerShell.Blanking
import DscAudit.Proofs.PowerShell.Embedding
import DscAudit.Proofs.PowerShell.Fault
import DscAudit.Proofs.PowerShell.Fitting
import DscAudit.Proofs.PowerShell.Joined
import DscAudit.Proofs.PowerShell.Keyword
import DscAudit.Proofs.PowerShell.Layout
import DscAudit.Proofs.PowerShell.LineEnd
import DscAudit.Proofs.PowerShell.LineEndBlock
import DscAudit.Proofs.PowerShell.Matching
import DscAudit.Proofs.PowerShell.Nesting
import DscAudit.Proofs.PowerShell.Offset
import DscAudit.Proofs.PowerShell.OffsetBlock
import DscAudit.Proofs.PowerShell.OffsetCode
import DscAudit.Proofs.PowerShell.Piece
import DscAudit.Proofs.PowerShell.Place
import DscAudit.Proofs.PowerShell.RoundTrip
import DscAudit.Proofs.PowerShell.Splitting
import DscAudit.Proofs.PowerShell.Twin
import DscAudit.Proofs.PowerShell.TwinAttribute
import DscAudit.Proofs.PowerShell.TwinBlock
import DscAudit.Proofs.PowerShell.Uncommented
import DscAudit.Proofs.PowerShell.Walk
import DscAudit.Proofs.PowerShell.Written
import DscAudit.Proofs.Report.Rendering
import DscAudit.Proofs.Report.Shape
import DscAudit.Proofs.Report.Verdict
import DscAudit.Proofs.Resource.Commented
import DscAudit.Proofs.Resource.Continuation
import DscAudit.Proofs.Resource.Definition
import DscAudit.Proofs.Resource.Description
import DscAudit.Proofs.Resource.Export
import DscAudit.Proofs.Resource.Reading
import DscAudit.Proofs.Rule.Finding
import DscAudit.Proofs.Rule.Location
import DscAudit.Proofs.Rule.Offset
import DscAudit.Proofs.Rule.Order
import DscAudit.Proofs.Rule.Rewriting
import DscAudit.Proofs.Run.DefaultEvidence
import DscAudit.Proofs.Run.Evidence
import DscAudit.Proofs.Run.Load
import DscAudit.Proofs.Shape.Table
import DscAudit.Proofs.Text.Character
import DscAudit.Proofs.Text.Cutting
import DscAudit.Proofs.Text.Encoding
import DscAudit.Proofs.Text.Integer
import DscAudit.Proofs.Text.Line
import DscAudit.Proofs.Text.LowerCase
import DscAudit.Proofs.Text.Numbering
import DscAudit.Proofs.Text.Scan
import DscAudit.Proofs.Text.Sorted
import DscAudit.Proofs.Tool.MarkdownIssue
import DscAudit.Proofs.Tool.MarkdownLint
import DscAudit.Proofs.Tool.Pwsh
import DscAudit.Proofs.Value.Table
import DscAudit.Proofs.Yaml.Undecodable
import DscAudit.Report.Payload
import DscAudit.Report.Text
import DscAudit.Resource.Module
import DscAudit.Resource.Schema
import DscAudit.Rule.Parameter
import DscAudit.Rule.Script
import DscAudit.Run.Context
import DscAudit.Shape.Basic
import DscAudit.Text.CharacterClass
import DscAudit.Text.Digit
import DscAudit.Text.Encoding
import DscAudit.Text.Infix
import DscAudit.Text.Integer
import DscAudit.Text.LetterCase
import DscAudit.Text.Lines
import DscAudit.Text.Portion
import DscAudit.Text.Printable
import DscAudit.Text.Quoted
import DscAudit.Text.Sorted
import DscAudit.Tool.LintTask
import DscAudit.Tool.MarkdownIssue
import DscAudit.Tool.MarkdownLint
import DscAudit.Tool.Pwsh
import DscAudit.Tool.Script
import DscAudit.Value.Access
import DscAudit.Value.Basic
import DscAudit.Value.Datum
import DscAudit.Yaml.Atom
import DscAudit.Yaml.Construction
import DscAudit.Yaml.Cursor
import DscAudit.Yaml.Graph
import DscAudit.Yaml.Kind
import DscAudit.Yaml.Merge
import DscAudit.Yaml.Node
import DscAudit.Yaml.Number
import DscAudit.Yaml.Scalar
import DscAudit.Yaml.SetOrder
import DscAudit.Yaml.Source
import DscAudit.Yaml.Timestamp
import DscAudit.Yaml.Token
import DscAudit.Yaml.Token.Lexer
