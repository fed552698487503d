import SharpLint.Command.Arguments
import SharpLint.Command.Help
import SharpLint.Command.Run
import SharpLint.Config.Basic
import SharpLint.Config.Codec
import SharpLint.Config.Store
import SharpLint.Decimal.Shortest
import SharpLint.Edit.Basic
import SharpLint.Edit.Batch
import SharpLint.Edit.Fix
import SharpLint.Edit.Minimal
import SharpLint.Edit.Tidy
import SharpLint.Files.Disk
import SharpLint.Files.SourceFile
import SharpLint.Files.Utf8
import SharpLint.Lint.Analysis
import SharpLint.Lint.ConstructorLength
import SharpLint.Lint.Fixer
import SharpLint.Lint.Issue
import SharpLint.Lint.Project
import SharpLint.Lint.RemoveField
import SharpLint.Lint.UnreadField
import SharpLint.Lint.WrapParameters
import SharpLint.Main
import SharpLint.Proofs.Command.Checks
import SharpLint.Proofs.Command.Fixing
import SharpLint.Proofs.Config.RoundTrip
import SharpLint.Proofs.Edit.Batch
import SharpLint.Proofs.Edit.Clear
import SharpLint.Proofs.Edit.Greedy
import SharpLint.Proofs.Edit.Minimal
import SharpLint.Proofs.Edit.Planning
import SharpLint.Proofs.Edit.Returns
import SharpLint.Proofs.Edit.Sequence
import SharpLint.Proofs.Edit.Single
import SharpLint.Proofs.Edit.Spared
import SharpLint.Proofs.Edit.Splice
import SharpLint.Proofs.Edit.Tidy
import SharpLint.Proofs.Edit.TidyAgain
import SharpLint.Proofs.Edit.TidyLines
import SharpLint.Proofs.Edit.TidyNormal
import SharpLint.Proofs.Files.Disk
import SharpLint.Proofs.Files.Paths
import SharpLint.Proofs.Files.Utf8
import SharpLint.Proofs.Lint.Agreement
import SharpLint.Proofs.Lint.Apart
import SharpLint.Proofs.Lint.Applicable
import SharpLint.Proofs.Lint.AttachedComments
import SharpLint.Proofs.Lint.Beginning
import SharpLint.Proofs.Lint.CommentsAgain
import SharpLint.Proofs.Lint.Conservative
import SharpLint.Proofs.Lint.Counts
import SharpLint.Proofs.Lint.Fields
import SharpLint.Proofs.Lint.LineEndings
import SharpLint.Proofs.Lint.Literals
import SharpLint.Proofs.Lint.Locality
import SharpLint.Proofs.Lint.Losses
import SharpLint.Proofs.Lint.OwnLines
import SharpLint.Proofs.Lint.Passes
import SharpLint.Proofs.Lint.Plan
import SharpLint.Proofs.Lint.References
import SharpLint.Proofs.Lint.Regions
import SharpLint.Proofs.Lint.Reported
import SharpLint.Proofs.Lint.Reports
import SharpLint.Proofs.Lint.Rounds
import SharpLint.Proofs.Lint.Schedule
import SharpLint.Proofs.Lint.Separators
import SharpLint.Proofs.Lint.Signatures
import SharpLint.Proofs.Lint.Survivors
import SharpLint.Proofs.Lint.WrapAgain
import SharpLint.Proofs.Lint.WrapKeeps
import SharpLint.Proofs.Lint.WrapLines
import SharpLint.Proofs.Lint.Wrapping
import SharpLint.Proofs.Lint.Writes
import SharpLint.Proofs.Lint.Written
import SharpLint.Proofs.Semantics.Declarations
import SharpLint.Proofs.Semantics.Leaks
import SharpLint.Proofs.Semantics.Scope
import SharpLint.Proofs.Semantics.Transplant
import SharpLint.Proofs.Session.Actions
import SharpLint.Proofs.Session.Documents
import SharpLint.Proofs.Session.Files
import SharpLint.Proofs.Session.Offsets
import SharpLint.Proofs.Session.Places
import SharpLint.Proofs.Syntax.Checks
import SharpLint.Proofs.Syntax.Closing
import SharpLint.Proofs.Syntax.Comments
import SharpLint.Proofs.Syntax.Covering
import SharpLint.Proofs.Syntax.Ending
import SharpLint.Proofs.Syntax.Layout
import SharpLint.Proofs.Syntax.Place
import SharpLint.Proofs.Syntax.Reads
import SharpLint.Proofs.Syntax.Shape
import SharpLint.Proofs.Syntax.Solid
import SharpLint.Proofs.Syntax.Sound
import SharpLint.Proofs.Syntax.Strings
import SharpLint.Proofs.Text.Breaks
import SharpLint.Proofs.Text.Cut
import SharpLint.Proofs.Text.Ink
import SharpLint.Proofs.Text.InkAt
import SharpLint.Proofs.Text.LineSearch
import SharpLint.Proofs.Text.Returns
import SharpLint.Proofs.Toml.Lines
import SharpLint.Proofs.Toml.Strings
import SharpLint.Proofs.Toml.Values
import SharpLint.Proofs.Walk.Rewrites
import SharpLint.Report.Json
import SharpLint.Report.Line
import SharpLint.Report.Paint
import SharpLint.Report.Project
import SharpLint.Semantics.Scope
import SharpLint.Semantics.Symbol
import SharpLint.Semantics.Usage
import SharpLint.Session.Address
import SharpLint.Session.Message
import SharpLint.Session.Session
import SharpLint.Syntax.Cursor
import SharpLint.Syntax.Document
import SharpLint.Syntax.Form
import SharpLint.Syntax.Grammar.Expressions
import SharpLint.Syntax.Grammar.Members
import SharpLint.Syntax.Grammar.Patterns
import SharpLint.Syntax.Grammar.Statements
import SharpLint.Syntax.Grammar.Tokens
import SharpLint.Syntax.Grammar.Types
import SharpLint.Syntax.Kind
import SharpLint.Syntax.Lexeme
import SharpLint.Syntax.Tree
import SharpLint.Text.Basic
import SharpLint.Text.Blank
import SharpLint.Text.Digit
import SharpLint.Text.Lines
import SharpLint.Text.Order
import SharpLint.Text.Word
import SharpLint.Toml.Reader
import SharpLint.Toml.Value
import SharpLint.Toml.Writer
import SharpLint.Walk.Glob
import SharpLint.Walk.IgnoreRule
import SharpLint.Walk.Walk
