import Offside.Cli.Argument
import Offside.Cli.Example
import Offside.Cli.Help
import Offside.Cli.Report
import Offside.Cli.Request
import Offside.Cli.Switch
import Offside.Cli.UsageError
import Offside.Comment
import Offside.Item.Basic
import Offside.Item.Stretch
import Offside.Layout.Canonical
import Offside.Layout.CodeLine
import Offside.Layout.Diagnostic
import Offside.Layout.Listing
import Offside.Layout.Run
import Offside.Layout.Scope
import Offside.Layout.Session
import Offside.Layout.Token
import Offside.Ledger.Basic
import Offside.Ledger.Listing
import Offside.Ledger.Siblings
import Offside.Ledger.Slice
import Offside.Lexeme.Basic
import Offside.Lexeme.Leading
import Offside.Lexeme.Terminal
import Offside.Log.Basic
import Offside.Log.Level
import Offside.ParseError
import Offside.Position
import Offside.Program.Block
import Offside.Program.Reader
import Offside.Setting
import Offside.Source.Folder
import Offside.Source.Model
import Offside.Text.DecimalDigit
import Offside.Text.Lines
import Offside.Text.Numeral
import Offside.Text.Printable
import Offside.Text.Quoted
import Offside.Text.UpperCase
import Offside.Text.Utf8
import Offside.Tree.Basic
import Offside.Tree.Outline
import Offside.Main
import Offside.Proofs.Layout.Invariant
import Offside.Proofs.Layout.Content
import Offside.Proofs.Layout.Canonical
import Offside.Proofs.Layout.RoundTrip
import Offside.Proofs.Lexeme.Reach
import Offside.Proofs.Program.Items
import Offside.Proofs.Program.Reading
import Offside.Proofs.Program.Canonical
import Offside.Proofs.Layout.LineEnds
import Offside.Proofs.Lexeme.Trailing
import Offside.Proofs.Program.Places
import Offside.Proofs.Layout.Extent
import Offside.Proofs.Layout.Image
import Offside.Proofs.Program.Traces
import Offside.Proofs.Tree.Unambiguous
import Offside.Proofs.Tree.Visit
import Offside.Proofs.Tree.Headings
import Offside.Proofs.Source.Outline
import Offside.Proofs.Layout.Normal
import Offside.Proofs.Layout.Order
import Offside.Proofs.Layout.Renumber
import Offside.Proofs.Layout.Tabs
import Offside.Proofs.Lexeme.Pattern
import Offside.Proofs.Lexeme.Lossless
import Offside.Proofs.Layout.Concatenation
import Offside.Proofs.Program.Concatenation
import Offside.Proofs.Layout.Nesting
import Offside.Proofs.Ledger.Navigation
import Offside.Proofs.Source.LineEnds
import Offside.Proofs.Layout.Continuation
import Offside.Proofs.Layout.Alignment
import Offside.Proofs.Layout.Flags
import Offside.Proofs.Ledger.Runs
import Offside.Proofs.Lexeme.Separator
import Offside.Proofs.Source.HeadingText
import Offside.Proofs.Program.Remarks
import Offside.Proofs.Layout.Refinement
import Offside.Proofs.Layout.Session
import Offside.Proofs.Program.Pieces
import Offside.Proofs.Tree.Owners
import Offside.Proofs.Cli.Sections
