import CodeSurvey.Cache.Basic
import CodeSurvey.Cache.History
import CodeSurvey.Cache.Key
import CodeSurvey.Cache.Recall
import CodeSurvey.Cache.Session
import CodeSurvey.Calendar
import CodeSurvey.Command.Basic
import CodeSurvey.Command.Files
import CodeSurvey.Command.Outcome
import CodeSurvey.Command.Plans
import CodeSurvey.Command.Project
import CodeSurvey.Command.Run
import CodeSurvey.Comment
import CodeSurvey.Complexity.Estimate
import CodeSurvey.Complexity.Report
import CodeSurvey.Complexity.Score
import CodeSurvey.Config.Basic
import CodeSurvey.Config.Change
import CodeSurvey.Config.File
import CodeSurvey.Data
import CodeSurvey.Data.Record
import CodeSurvey.Display.Markup
import CodeSurvey.Display.Table
import CodeSurvey.Display.Wrap
import CodeSurvey.Distinct
import CodeSurvey.Ecma.Cursor
import CodeSurvey.Ecma.Declared
import CodeSurvey.Ecma.Grammar.Basic
import CodeSurvey.Ecma.Grammar.Element
import CodeSurvey.Ecma.Grammar.Expression
import CodeSurvey.Ecma.Grammar.Function
import CodeSurvey.Ecma.Grammar.Literal
import CodeSurvey.Ecma.Grammar.Module
import CodeSurvey.Ecma.Grammar.Statement
import CodeSurvey.Ecma.Grammar.Target
import CodeSurvey.Ecma.Parse
import CodeSurvey.Ecma.Token
import CodeSurvey.Ecma.Tree
import CodeSurvey.Ecma.TypeErasure
import CodeSurvey.Export.Assigned
import CodeSurvey.Export.Surface
import CodeSurvey.Folder
import CodeSurvey.Graph.Basic
import CodeSurvey.Graph.Build
import CodeSurvey.Graph.Cycles
import CodeSurvey.Graph.Holder
import CodeSurvey.Graph.Impact
import CodeSurvey.Graph.Rank
import CodeSurvey.Import.Resolve
import CodeSurvey.Import.Scan
import CodeSurvey.Json.Basic
import CodeSurvey.Language
import CodeSurvey.Main
import CodeSurvey.Number.Decimal
import CodeSurvey.Number.Double
import CodeSurvey.Number.Integer
import CodeSurvey.Number.Shortest
import CodeSurvey.Path
import CodeSurvey.Pattern.Basic
import CodeSurvey.Pattern.Search
import CodeSurvey.Plan.Classification
import CodeSurvey.Plan.Document
import CodeSurvey.Problem
import CodeSurvey.Proofs.Cache.Inclusion
import CodeSurvey.Proofs.Cache.Key
import CodeSurvey.Proofs.Cache.Recency
import CodeSurvey.Proofs.Cache.Transparency
import CodeSurvey.Proofs.Comment
import CodeSurvey.Proofs.Complexity.Branches
import CodeSurvey.Proofs.Complexity.Insertion
import CodeSurvey.Proofs.Complexity.Nested
import CodeSurvey.Proofs.Complexity.Walk
import CodeSurvey.Proofs.Config.Commands
import CodeSurvey.Proofs.Config.Frame
import CodeSurvey.Proofs.Config.Layers
import CodeSurvey.Proofs.Config.Settings
import CodeSurvey.Proofs.Data.Same
import CodeSurvey.Proofs.Ecma.DeclarationLines
import CodeSurvey.Proofs.Ecma.Declarations
import CodeSurvey.Proofs.Ecma.Declared
import CodeSurvey.Proofs.Ecma.Functions
import CodeSurvey.Proofs.Ecma.Gaps
import CodeSurvey.Proofs.Ecma.Grammar.Assigned
import CodeSurvey.Proofs.Ecma.Grammar.Exported
import CodeSurvey.Proofs.Ecma.Grammar.Expression
import CodeSurvey.Proofs.Ecma.Grammar.Function
import CodeSurvey.Proofs.Ecma.Grammar.Module
import CodeSurvey.Proofs.Ecma.Grammar.Statement
import CodeSurvey.Proofs.Ecma.Grammar.Traced
import CodeSurvey.Proofs.Ecma.Grammar.TracedExpression
import CodeSurvey.Proofs.Ecma.Grammar.TracedStatement
import CodeSurvey.Proofs.Ecma.Keeping
import CodeSurvey.Proofs.Ecma.Layout
import CodeSurvey.Proofs.Ecma.Names
import CodeSurvey.Proofs.Ecma.Occurrence
import CodeSurvey.Proofs.Ecma.Place
import CodeSurvey.Proofs.Ecma.Reading
import CodeSurvey.Proofs.Ecma.Running
import CodeSurvey.Proofs.Ecma.Spelling
import CodeSurvey.Proofs.Ecma.TypeErasure
import CodeSurvey.Proofs.Ecma.Written
import CodeSurvey.Proofs.Export.Bindings
import CodeSurvey.Proofs.Export.MemberText
import CodeSurvey.Proofs.Export.Members
import CodeSurvey.Proofs.Export.ObjectKeys
import CodeSurvey.Proofs.Export.ObjectNames
import CodeSurvey.Proofs.Export.ObjectText
import CodeSurvey.Proofs.Findings
import CodeSurvey.Proofs.Graph.Build
import CodeSurvey.Proofs.Graph.Completion
import CodeSurvey.Proofs.Graph.Components
import CodeSurvey.Proofs.Graph.Distance
import CodeSurvey.Proofs.Graph.Entries
import CodeSurvey.Proofs.Graph.Failures
import CodeSurvey.Proofs.Graph.Impact
import CodeSurvey.Proofs.Graph.Importers
import CodeSurvey.Proofs.Graph.InputOrder
import CodeSurvey.Proofs.Graph.LowLink
import CodeSurvey.Proofs.Graph.MutualDependents
import CodeSurvey.Proofs.Graph.Reach
import CodeSurvey.Proofs.Graph.Record
import CodeSurvey.Proofs.Graph.SearchRun
import CodeSurvey.Proofs.Graph.Sweep
import CodeSurvey.Proofs.Graph.Watched
import CodeSurvey.Proofs.Import.CapitalName
import CodeSurvey.Proofs.Import.Crate
import CodeSurvey.Proofs.Import.FileSet
import CodeSurvey.Proofs.Import.GoForms
import CodeSurvey.Proofs.Import.GoText
import CodeSurvey.Proofs.Import.ModuleList
import CodeSurvey.Proofs.Import.ModuleName
import CodeSurvey.Proofs.Import.Outside
import CodeSurvey.Proofs.Import.Package
import CodeSurvey.Proofs.Import.Quoted
import CodeSurvey.Proofs.Import.Relative
import CodeSurvey.Proofs.Import.RoundTrip
import CodeSurvey.Proofs.Import.ScriptComments
import CodeSurvey.Proofs.Import.ScriptLines
import CodeSurvey.Proofs.Import.Written
import CodeSurvey.Proofs.Number.Double
import CodeSurvey.Proofs.Path
import CodeSurvey.Proofs.Path.Climb
import CodeSurvey.Proofs.Pattern.Ahead
import CodeSurvey.Proofs.Pattern.First
import CodeSurvey.Proofs.Pattern.Reads
import CodeSurvey.Proofs.Pattern.Replace
import CodeSurvey.Proofs.Pattern.Shortest
import CodeSurvey.Proofs.Pattern.Steps
import CodeSurvey.Proofs.Plan.Head
import CodeSurvey.Proofs.Plan.RoundTrip
import CodeSurvey.Proofs.RepoMap.Budgets
import CodeSurvey.Proofs.RepoMap.Greedy
import CodeSurvey.Proofs.RepoMap.RoundedLimit
import CodeSurvey.Proofs.Schedule.Batch
import CodeSurvey.Proofs.Schedule.Score
import CodeSurvey.Proofs.Schedule.Tiers
import CodeSurvey.Proofs.Schedule.Waves
import CodeSurvey.Proofs.Signature.LinePatterns
import CodeSurvey.Proofs.Signature.LineScan
import CodeSurvey.Proofs.Signature.Order
import CodeSurvey.Proofs.Signature.Scored
import CodeSurvey.Proofs.SourceFiles
import CodeSurvey.Proofs.Text.Lines
import CodeSurvey.Proofs.Text.Pieces
import CodeSurvey.Proofs.Toml.Tidy
import CodeSurvey.RepoMap.Summary
import CodeSurvey.Schedule.Draft
import CodeSurvey.Schedule.Mode
import CodeSurvey.Schedule.Model
import CodeSurvey.Schedule.Route
import CodeSurvey.Schedule.Score
import CodeSurvey.Signature.Basic
import CodeSurvey.Signature.Detector
import CodeSurvey.Signature.LineScan
import CodeSurvey.Signature.Report
import CodeSurvey.Signature.Walk
import CodeSurvey.Sorting
import CodeSurvey.SourceFiles
import CodeSurvey.Text.Basic
import CodeSurvey.Text.Lower
import CodeSurvey.Text.Quoted
import CodeSurvey.Text.Utf8
import CodeSurvey.Text.WordChar
import CodeSurvey.Toml.Document
import CodeSurvey.Toml.Fault
import CodeSurvey.Toml.Level
import CodeSurvey.Toml.Lines
import CodeSurvey.Toml.Moment
import CodeSurvey.Toml.Quotes
import CodeSurvey.Toml.Value
import CodeSurvey.Toml.Writer
import CodeSurvey.Yaml.Cursor
import CodeSurvey.Yaml.Node
import CodeSurvey.Yaml.Scalar
import CodeSurvey.Yaml.Tag
import CodeSurvey.Yaml.Token
import CodeSurvey.Yaml.Value
