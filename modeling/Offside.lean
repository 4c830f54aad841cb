import Offside.CommandLine
import Offside.Diagnostic.Reading
import Offside.Main
import Offside.Proofs.Check.Paths
import Offside.Proofs.Layout.Steps
import Offside.Proofs.Token.Nesting
import Offside.Proofs.Layout.Order
import Offside.Proofs.Grammar.Derivation
import Offside.Proofs.Grammar.Expressions
import Offside.Proofs.Grammar.Programs
import Offside.Proofs.Grammar.Locations
import Offside.Proofs.Layout.Rows
import Offside.Proofs.Lexeme.Pieces
import Offside.Proofs.Printing.Fragments
import Offside.Proofs.Syntax.Erasure
import Offside.Proofs.Grammar.Running
import Offside.Proofs.Printing.Lists
import Offside.Proofs.Printing.Types
import Offside.Proofs.Printing.Rereading
import Offside.Proofs.Printing.Expressions
import Offside.Proofs.Printing.RoundTrip
import Offside.Proofs.Printing.Passages
import Offside.Proofs.Printing.Bindings
import Offside.Proofs.Printing.Programs
import Offside.Proofs.Token.Brackets
import Offside.Proofs.Token.Spelling
import Offside.Proofs.Check.Breaks
import Offside.Proofs.Layout.Content
import Offside.Proofs.Frontend.Diagnostics
import Offside.Proofs.Frontend.Indentation
import Offside.Proofs.Frontend.Concatenation
import Offside.Proofs.Printing.Outlines
import Offside.Proofs.Frontend.BlockForms
import Offside.Proofs.Check.Exactness
import Offside.Proofs.Frontend.Comments
import Offside.Proofs.Frontend.Reprinting
import Offside.Proofs.Frontend.Readback
import Offside.Proofs.Layout.StatementRuns
import Offside.Proofs.Layout.Separators
import Offside.Proofs.Layout.Regions
import Offside.Proofs.Layout.Idempotence
import Offside.Proofs.Token.Readings
import Offside.Proofs.Token.Signs
import Offside.Proofs.Token.Typesetting
import Offside.Proofs.Layout.Margins
import Offside.Proofs.Grammar.Precedence
import Offside.Proofs.Diagnostic.Rereading
import Offside.Proofs.Grammar.TypeLanguage
import Offside.Proofs.Syntax.Places
import Offside.Proofs.Layout.Nesting
import Offside.Proofs.Frontend.Consumption
import Offside.Proofs.Frontend.Excerpts
import Offside.Proofs.Token.WrittenForm
import Offside.Proofs.Token.Numerals
import Offside.Proofs.Grammar.Operations
