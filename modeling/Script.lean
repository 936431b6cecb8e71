import Script.Text.Blank
import Script.Text.Hidden
import Script.Text.Replace
import Script.Text.Lines
import Script.Diagnostic
import Script.Token
import Script.Lexer
import Script.Literal
import Script.Tree.Written
import Script.Tree.Reading
import Script.Parser.Basic
import Script.Program
import Script.Program.Progress
import Script.Proofs.Grammar
import Script.Proofs.Grammar.Step
import Script.Proofs.Grammar.Soundness
import Script.Proofs.Grammar.Completeness
import Script.Proofs.Grammar.Sentence
import Script.Proofs.Lexer.Gaps
import Script.Proofs.Lexer.Operators
import Script.Proofs.Lexer.Shapes
import Script.Proofs.Lexer.Cut
import Script.Proofs.Lexer.Partition
import Script.Proofs.Lexer.Longest
import Script.Proofs.Lexer.Layout
import Script.Proofs.Parser.Beginnings
import Script.Proofs.Parser.Bounds
import Script.Proofs.Parser.Mirrors
import Script.Proofs.Parser.Positions
import Script.Proofs.Grammar.Program
import Script.Proofs.Grammar.Concatenation
import Script.Proofs.Recovery.Shape
import Script.Proofs.Recovery.Isolation
import Script.Proofs.Grammar.Words
import Script.Proofs.Parser.Passing
import Script.Proofs.Recovery.Agreement
import Script.Proofs.Recovery.SyncPoint
import Script.Proofs.Tree.Unplaced
import Script.Proofs.Writing
import Script.Proofs.Writing.Lexemes
import Script.Proofs.Writing.Literals
import Script.Proofs.Writing.Sentences
import Script.Proofs.Writing.RoundTrip
import Script.Proofs.Lexer.Front
import Script.Proofs.Lexer.LineByLine
import Script.Proofs.Lexer.Unclosed
import Script.Proofs.Tree.Accepted
import Script.Proofs.Tree.Kinds
import Script.Proofs.Tree.ReadBack
import Script.Proofs.Tree.Pruned
import Script.Proofs.Tree.Faithful
import Script.Proofs.Recovery.Gathered
import Script.Proofs.Grammar.WellFormed
import Script.Proofs.Tree.Siblings
import Script.Proofs.Grammar.Order
import Script.Proofs.Parser.Failing
import Script.Proofs.Recovery.Unended
import Script.Proofs.Grammar.Failing
import Script.Proofs.Recovery.SourceOrder
import Script.Proofs.Recovery.Pointing
import Script.Proofs.Parser.Shadowing
import Script.Proofs.Grammar.Actions
import Script.Proofs.Diagnostic.Lines
import Script.Proofs.Diagnostic.Marking
import Script.Proofs.Diagnostic.Layout
import Script.Proofs.Diagnostic.Colours
import Script.Proofs.Grammar.Parentheses
import Script.Proofs.Literal.Strings
import Script.Proofs.Literal.Numbers
import Script.Proofs.Literal.Accepted
import Script.Proofs.Parser.StatementRules
import Script.Proofs.Recovery.Resumption
import Script.Proofs.Parser.Windows
import Script.Proofs.Grammar.Types
import Script.Proofs.Grammar.Lookahead
import Script.Proofs.Parser.Expectations
import Script.Proofs.Diagnostic.Quoting
