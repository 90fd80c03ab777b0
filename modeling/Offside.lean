import Offside.Binary64.Basic
import Offside.Binary64.Shortest
import Offside.Binary64.Text
import Offside.Command.FileTree
import Offside.Command.Options
import Offside.Command.Run
import Offside.Diagnostic
import Offside.Environment
import Offside.Fault
import Offside.Json.Basic
import Offside.Json.Printer
import Offside.Json.Record
import Offside.Main
import Offside.OutputMode
import Offside.Parser.Expression
import Offside.Parser.Statement
import Offside.Program.Basic
import Offside.Program.Cpp
import Offside.Program.Exchange
import Offside.Program.Outline
import Offside.Program.Spelling
import Offside.Program.Types
import Offside.Proofs.Binary64.ReadBack
import Offside.Proofs.Binary64.Rounding
import Offside.Proofs.Binary64.Shortest
import Offside.Proofs.Blocks.Agreement
import Offside.Proofs.Blocks.Nesting
import Offside.Proofs.Command.Endings
import Offside.Proofs.Command.Files
import Offside.Proofs.Command.Outcomes
import Offside.Proofs.Command.Settings
import Offside.Proofs.Concatenation.Lexing
import Offside.Proofs.Concatenation.Programs
import Offside.Proofs.Cpp.Declarations
import Offside.Proofs.Cpp.Determined
import Offside.Proofs.Cpp.Distinct
import Offside.Proofs.Cpp.Execution
import Offside.Proofs.Cpp.Expressions
import Offside.Proofs.Cpp.Grouping
import Offside.Proofs.Cpp.Nesting
import Offside.Proofs.Cpp.Operands
import Offside.Proofs.Cpp.Reading
import Offside.Proofs.DeclarationLog
import Offside.Proofs.Declarations
import Offside.Proofs.Diagnostics.Excerpts
import Offside.Proofs.Diagnostics.Places
import Offside.Proofs.Exchange.Sources
import Offside.Proofs.Exchange.Structures
import Offside.Proofs.Grammar.Basic
import Offside.Proofs.Grammar.Complete
import Offside.Proofs.Grammar.Conflicts
import Offside.Proofs.Grammar.Errors
import Offside.Proofs.Grammar.Exact
import Offside.Proofs.Grammar.Lines
import Offside.Proofs.Grammar.Sound
import Offside.Proofs.Json.Arrangement
import Offside.Proofs.Lexing.Counting
import Offside.Proofs.Lexing.Indentation
import Offside.Proofs.Lexing.Pieces
import Offside.Proofs.Lexing.Resuming
import Offside.Proofs.Lexing.Spelling
import Offside.Proofs.Lexing.Steps
import Offside.Proofs.Lexing.Turns
import Offside.Proofs.LineHeads.Lexing
import Offside.Proofs.LineHeads.Statements
import Offside.Proofs.Linewise.Agreement
import Offside.Proofs.Linewise.Alike
import Offside.Proofs.Linewise.Lexeme
import Offside.Proofs.Linewise.OnLine
import Offside.Proofs.Linewise.Progress
import Offside.Proofs.Linewise.Reading
import Offside.Proofs.Linewise.Widths
import Offside.Proofs.Listing
import Offside.Proofs.Names
import Offside.Proofs.Outline.Drawing
import Offside.Proofs.Outline.Faithful
import Offside.Proofs.Placement.Derivations
import Offside.Proofs.Placement.Parsing
import Offside.Proofs.Placement.Source
import Offside.Proofs.Placement.Trees
import Offside.Proofs.Prefix.Expectation
import Offside.Proofs.Prefix.Simulation
import Offside.Proofs.Prefix.Sites
import Offside.Proofs.Prefix.Viable
import Offside.Proofs.Progress
import Offside.Proofs.Proper
import Offside.Proofs.RoundTrip.Lexing
import Offside.Proofs.RoundTrip.Parsing
import Offside.Proofs.RoundTrip.Source
import Offside.Proofs.RoundTrip.Spelled
import Offside.Proofs.RoundTrip.Text
import Offside.Proofs.RoundTrip.Words
import Offside.Proofs.Scopes
import Offside.Proofs.Spacing.OnLine
import Offside.Proofs.Spacing.Tabs
import Offside.Proofs.Spacing.Trivia
import Offside.Proofs.Spacing.Widths
import Offside.Scope
import Offside.Settings
import Offside.Source
import Offside.Span
import Offside.Text.Blank
import Offside.Text.Colour
import Offside.Text.Glyph
import Offside.Text.Quoted
import Offside.Token.Basic
import Offside.Token.Exchange
import Offside.Token.Kind
import Offside.Token.Layout
import Offside.Token.Lexeme
import Offside.Token.Lexer
import Offside.Token.Listing
import Offside.Word
