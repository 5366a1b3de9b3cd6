import TemplateManifest.AddonFile
import TemplateManifest.Asset.Path
import TemplateManifest.Asset.Table
import TemplateManifest.CommandLine.Arguments
import TemplateManifest.CommandLine.Command
import TemplateManifest.Compile.Code
import TemplateManifest.Compile.Fault
import TemplateManifest.Compile.Scope
import TemplateManifest.Compile.Source
import TemplateManifest.Compile.Template
import TemplateManifest.Compile.Vocabulary
import TemplateManifest.Config
import TemplateManifest.Diagnosis
import TemplateManifest.Disk.Basic
import TemplateManifest.Disk.Tree
import TemplateManifest.Failure
import TemplateManifest.Main
import TemplateManifest.Manifest
import TemplateManifest.Number.Decimal
import TemplateManifest.Number.Double
import TemplateManifest.Path
import TemplateManifest.Process
import TemplateManifest.Proofs.Asset.Directory
import TemplateManifest.Proofs.Asset.Distinct
import TemplateManifest.Proofs.Asset.Entries
import TemplateManifest.Proofs.Asset.Occurrence
import TemplateManifest.Proofs.Asset.Origin
import TemplateManifest.Proofs.Asset.Overlap
import TemplateManifest.Proofs.Asset.OwnCode
import TemplateManifest.Proofs.Asset.OwnLookup
import TemplateManifest.Proofs.Asset.Plain
import TemplateManifest.Proofs.Asset.Spelling
import TemplateManifest.Proofs.Asset.SumCode
import TemplateManifest.Proofs.Asset.Twice
import TemplateManifest.Proofs.Asset.Watched
import TemplateManifest.Proofs.Compile.Announcing
import TemplateManifest.Proofs.Compile.Asynchrony
import TemplateManifest.Proofs.Compile.BlockCalls
import TemplateManifest.Proofs.Compile.BlockFunctions
import TemplateManifest.Proofs.Compile.Calls
import TemplateManifest.Proofs.Compile.Clean
import TemplateManifest.Proofs.Compile.Compilable
import TemplateManifest.Proofs.Compile.Emission
import TemplateManifest.Proofs.Compile.Gathering
import TemplateManifest.Proofs.Compile.Holding
import TemplateManifest.Proofs.Compile.Inventory
import TemplateManifest.Proofs.Compile.Lexical
import TemplateManifest.Proofs.Compile.OperatorReading
import TemplateManifest.Proofs.Compile.OperatorTree
import TemplateManifest.Proofs.Compile.PathCode
import TemplateManifest.Proofs.Compile.Pieces
import TemplateManifest.Proofs.Compile.Quoted
import TemplateManifest.Proofs.Compile.Quoting
import TemplateManifest.Proofs.Compile.Refusal
import TemplateManifest.Proofs.Compile.Scope
import TemplateManifest.Proofs.Compile.Visiting
import TemplateManifest.Proofs.Compile.Written
import TemplateManifest.Proofs.Process
import TemplateManifest.Proofs.Process.Addons
import TemplateManifest.Proofs.Process.Ending
import TemplateManifest.Proofs.Process.Loading
import TemplateManifest.Proofs.Process.Pairing
import TemplateManifest.Proofs.Process.References
import TemplateManifest.Proofs.Resolve.CompletionOrder
import TemplateManifest.Proofs.Resolve.Decision
import TemplateManifest.Proofs.Resolve.FailFast
import TemplateManifest.Proofs.Resolve.Time
import TemplateManifest.Proofs.Scope.Assigned
import TemplateManifest.Proofs.Scope.Declared
import TemplateManifest.Proofs.Scope.Emitted
import TemplateManifest.Proofs.Scope.Flow
import TemplateManifest.Proofs.Scope.Outline
import TemplateManifest.Proofs.Scope.Resolution
import TemplateManifest.Proofs.Script.Balanced
import TemplateManifest.Proofs.Script.BlockCalls
import TemplateManifest.Proofs.Script.Inventory
import TemplateManifest.Proofs.Script.Legible
import TemplateManifest.Proofs.Script.Lexeme
import TemplateManifest.Proofs.Script.Marked
import TemplateManifest.Proofs.Script.Parts
import TemplateManifest.Proofs.Script.Paths
import TemplateManifest.Proofs.Script.Reading
import TemplateManifest.Proofs.Script.Strings
import TemplateManifest.Proofs.Script.Undeclared
import TemplateManifest.Proofs.Script.Uses
import TemplateManifest.Proofs.Script.Wording
import TemplateManifest.Proofs.Steps
import TemplateManifest.Proofs.Template.Addresses
import TemplateManifest.Proofs.Template.ByteCode
import TemplateManifest.Proofs.Template.ByteLexer
import TemplateManifest.Proofs.Template.ByteScan
import TemplateManifest.Proofs.Template.ByteSteps
import TemplateManifest.Proofs.Template.ByteTags
import TemplateManifest.Proofs.Template.ByteText
import TemplateManifest.Proofs.Template.ClauseReading
import TemplateManifest.Proofs.Template.ClosingTags
import TemplateManifest.Proofs.Template.CodePlaces
import TemplateManifest.Proofs.Template.Consuming
import TemplateManifest.Proofs.Template.ExpressionLedger
import TemplateManifest.Proofs.Template.ExpressionOrder
import TemplateManifest.Proofs.Template.ExpressionReading
import TemplateManifest.Proofs.Template.FaultPlaces
import TemplateManifest.Proofs.Template.Grammar
import TemplateManifest.Proofs.Template.IndexExpression
import TemplateManifest.Proofs.Template.IndexParser
import TemplateManifest.Proofs.Template.IndexStatement
import TemplateManifest.Proofs.Template.IndexSteps
import TemplateManifest.Proofs.Template.Layout
import TemplateManifest.Proofs.Template.Ledger
import TemplateManifest.Proofs.Template.Located
import TemplateManifest.Proofs.Template.NameWords
import TemplateManifest.Proofs.Template.Naming
import TemplateManifest.Proofs.Template.Preorder
import TemplateManifest.Proofs.Template.RawBlock
import TemplateManifest.Proofs.Template.RawContent
import TemplateManifest.Proofs.Template.Reading
import TemplateManifest.Proofs.Template.RoundTrip
import TemplateManifest.Proofs.Template.Sentence
import TemplateManifest.Proofs.Template.Shown
import TemplateManifest.Proofs.Template.Span
import TemplateManifest.Proofs.Template.Spelling
import TemplateManifest.Proofs.Template.StatementGrammar
import TemplateManifest.Proofs.Template.StatementLedger
import TemplateManifest.Proofs.Template.StatementOrder
import TemplateManifest.Proofs.Template.StringLiteral
import TemplateManifest.Proofs.Template.TagCode
import TemplateManifest.Proofs.Template.TermReading
import TemplateManifest.Proofs.Template.TextRuns
import TemplateManifest.Proofs.Template.Tiling
import TemplateManifest.Proofs.Template.Walk
import TemplateManifest.Proofs.Template.Within
import TemplateManifest.Proofs.Template.WrittenOrder
import TemplateManifest.Proofs.Text.Bytes
import TemplateManifest.Proofs.Text.Lead
import TemplateManifest.Proofs.Text.Stretches
import TemplateManifest.Reference
import TemplateManifest.Report.Item
import TemplateManifest.Report.Manifest
import TemplateManifest.Resolve.Join
import TemplateManifest.Resolve.Lookup
import TemplateManifest.Resolve.Race
import TemplateManifest.Script.Basic
import TemplateManifest.Script.Text
import TemplateManifest.Template.Addon
import TemplateManifest.Template.Code
import TemplateManifest.Template.Delimiters
import TemplateManifest.Template.Expression
import TemplateManifest.Template.Lexer
import TemplateManifest.Template.Node
import TemplateManifest.Template.Parse
import TemplateManifest.Template.Segment
import TemplateManifest.Template.Statement
import TemplateManifest.Template.Stream
import TemplateManifest.Template.SyntaxError
import TemplateManifest.Template.Token
import TemplateManifest.Template.Walk
import TemplateManifest.Text.Alphabetic
import TemplateManifest.Text.Distance
import TemplateManifest.Text.Numeric
import TemplateManifest.Text.Position
import TemplateManifest.Text.Quoted
import TemplateManifest.Text.Ranges
import TemplateManifest.Text.Search
import TemplateManifest.Text.WhiteSpace
import TemplateManifest.Text.WordCharacter
import TemplateManifest.Toml.Document
import TemplateManifest.Toml.Number
import TemplateManifest.Toml.Outline
import TemplateManifest.Toml.Table
import TemplateManifest.Toml.Text
import TemplateManifest.Toml.Value
import TemplateManifest.Uuid
import TemplateManifest.Warning
