import ReplCore.Code.Lexer.Lemmas
import ReplCore.Line.Renderer
import ReplCore.Log.Record
import ReplCore.Main
import ReplCore.Visiting.Strategy
import ReplCore.Proofs.Code.Placing
import ReplCore.Proofs.Submission.Cutting
import ReplCore.Proofs.Submission.Reading
import ReplCore.Proofs.Code.Lexemes
import ReplCore.Proofs.Pattern.Ends
import ReplCore.Proofs.Code.Rules
import ReplCore.Proofs.Code.Tokens
import ReplCore.Proofs.Submission.Lossless
import ReplCore.Proofs.Terminal.Row
import ReplCore.Proofs.Terminal.Styling
import ReplCore.Proofs.Terminal.Sequences
import ReplCore.Proofs.Style.Codes
import ReplCore.Proofs.Terminal.Painting
import ReplCore.Proofs.Terminal.Transcript
import ReplCore.Proofs.Terminal.Repaint
import ReplCore.Proofs.Brackets.Spans
import ReplCore.Proofs.Line.Appending
import ReplCore.Proofs.Submission.Neighbours
import ReplCore.Proofs.Rewriting.Triggers
import ReplCore.Proofs.Rewriting.Shortcut
import ReplCore.Proofs.Modules.Redirects
import ReplCore.Proofs.Visiting.Choice
import ReplCore.Proofs.Visiting.Order
import ReplCore.Proofs.Rewriting.Effects
import ReplCore.Proofs.Rewriting.History
import ReplCore.Proofs.Code.Enclosures
import ReplCore.Proofs.Rewriting.Totality
import ReplCore.Proofs.Pattern.Begins
import ReplCore.Proofs.Brackets.Nested
import ReplCore.Proofs.Submission.Acceptance
import ReplCore.Proofs.Generated.Meaning
import ReplCore.Proofs.Generated.Patterns
import ReplCore.Proofs.Rewriting.Fetched
import ReplCore.Proofs.Rewriting.Loading
import ReplCore.Proofs.Rewriting.Redirecting
import ReplCore.Proofs.Modules.Flags
import ReplCore.Proofs.Modules.Nearest
import ReplCore.Proofs.Rewriting.Seen
import ReplCore.Proofs.Text.Literals
import ReplCore.Proofs.Rewriting.Specifiers
import ReplCore.Proofs.Terminal.Underline
import ReplCore.Proofs.Line.Marks
import ReplCore.Proofs.Line.Emphasis
import ReplCore.Proofs.Line.Redraw
import ReplCore.Proofs.Line.EmphasisColors
import ReplCore.Proofs.Submission.DynamicImports
import ReplCore.Proofs.Style.Stylesheets
import ReplCore.Proofs.Submission.Faults
import ReplCore.Proofs.Imports.Reading
import ReplCore.Proofs.Rewriting.Outcomes
import ReplCore.Proofs.Rewriting.Switches
import ReplCore.Proofs.Rewriting.Redeclared
import ReplCore.Proofs.Submission.Extents
import ReplCore.Proofs.Submission.Targets
import ReplCore.Proofs.Submission.Pairing
import ReplCore.Proofs.Rewriting.KeptImports
import ReplCore.Proofs.Line.Colors
import ReplCore.Proofs.Pattern.Within
import ReplCore.Proofs.Terminal.Cuts
import ReplCore.Proofs.Terminal.CommonStart
import ReplCore.Proofs.Terminal.Carried
import ReplCore.Proofs.Brackets.Matching
import ReplCore.Proofs.Brackets.Modes
import ReplCore.Proofs.Brackets.Continuing
import ReplCore.Proofs.Brackets.Outermost
import ReplCore.Proofs.Brackets.Removing
import ReplCore.Proofs.Brackets.Context
import ReplCore.Proofs.Brackets.Idempotence
import ReplCore.Proofs.Modules.WrittenOnce
import ReplCore.Proofs.Style.Precedence
import ReplCore.Proofs.Style.Comments
import ReplCore.Proofs.Settings.LastWritten
