import StarlarkLint.Main
import StarlarkLint.Node.Display
import StarlarkLint.Proofs.Check.Category
import StarlarkLint.Proofs.Check.Findings
import StarlarkLint.Proofs.Check.InPlace
import StarlarkLint.Proofs.Check.Name
import StarlarkLint.Proofs.Check.Native
import StarlarkLint.Proofs.Check.NativeChain
import StarlarkLint.Proofs.Check.Nesting
import StarlarkLint.Proofs.Check.Order
import StarlarkLint.Proofs.Check.Overtaking
import StarlarkLint.Proofs.Check.Rerun
import StarlarkLint.Proofs.Check.Rewriting
import StarlarkLint.Proofs.Check.Session
import StarlarkLint.Proofs.Check.Stars
import StarlarkLint.Proofs.Check.Undisturbed
import StarlarkLint.Proofs.Check.Visible
import StarlarkLint.Proofs.CommandLine.Arguments
import StarlarkLint.Proofs.CommandLine.InPlace
import StarlarkLint.Proofs.CommandLine.Paths
import StarlarkLint.Proofs.Discovery
import StarlarkLint.Proofs.Discovery.Dialect
import StarlarkLint.Proofs.Discovery.Order
import StarlarkLint.Proofs.Except
import StarlarkLint.Proofs.Grammar.Balance
import StarlarkLint.Proofs.Grammar.Completeness
import StarlarkLint.Proofs.Grammar.Concatenation
import StarlarkLint.Proofs.Grammar.Derivation
import StarlarkLint.Proofs.Grammar.Descent
import StarlarkLint.Proofs.Grammar.EndMark
import StarlarkLint.Proofs.Grammar.Excerpt
import StarlarkLint.Proofs.Grammar.Failure
import StarlarkLint.Proofs.Grammar.Nesting
import StarlarkLint.Proofs.Grammar.Parentheses
import StarlarkLint.Proofs.Grammar.Placement
import StarlarkLint.Proofs.Grammar.Progress
import StarlarkLint.Proofs.Grammar.Reading
import StarlarkLint.Proofs.Grammar.Recognition
import StarlarkLint.Proofs.Grammar.Relocation
import StarlarkLint.Proofs.Grammar.Soundness
import StarlarkLint.Proofs.Grammar.Stars
import StarlarkLint.Proofs.Grammar.Statement
import StarlarkLint.Proofs.Layout.Dots
import StarlarkLint.Proofs.Layout.Expression
import StarlarkLint.Proofs.Layout.File
import StarlarkLint.Proofs.Layout.Kept
import StarlarkLint.Proofs.Layout.Parentheses
import StarlarkLint.Proofs.Layout.Pieces
import StarlarkLint.Proofs.Layout.RoundTrip
import StarlarkLint.Proofs.Node.Bare
import StarlarkLint.Proofs.Node.Editing
import StarlarkLint.Proofs.Node.Expressible
import StarlarkLint.Proofs.Node.Moved
import StarlarkLint.Proofs.Node.Nesting
import StarlarkLint.Proofs.Node.Place
import StarlarkLint.Proofs.Node.Slots
import StarlarkLint.Proofs.Node.Values
import StarlarkLint.Proofs.Node.Walking
import StarlarkLint.Proofs.Position
import StarlarkLint.Proofs.Review
import StarlarkLint.Proofs.Settings
import StarlarkLint.Proofs.Settings.Failure
import StarlarkLint.Proofs.Text.Encoding
import StarlarkLint.Proofs.Text.Letter
import StarlarkLint.Proofs.Token.Lexeme
import StarlarkLint.Proofs.Token.Literal
import StarlarkLint.Proofs.Token.Lookahead
import StarlarkLint.Proofs.Token.Raw
import StarlarkLint.Proofs.Token.Respacing
import StarlarkLint.Proofs.Token.Scan
import StarlarkLint.Proofs.Token.Symbol
import StarlarkLint.Proofs.Token.Tiling
import StarlarkLint.Proofs.Unfailing
