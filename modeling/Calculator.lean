import Calculator.Source.Basic
import Calculator.Source.Cursor
import Calculator.Source.Excerpt
import Calculator.Text.Blank
import Calculator.Text.Lines
import Calculator.Text.Numeral
import Calculator.Double.Basic
import Calculator.Double.Rounding
import Calculator.Double.Arithmetic
import Calculator.Double.Shortest
import Calculator.Double.Text
import Calculator.Value.Basic
import Calculator.Value.Operation
import Calculator.Token.Basic
import Calculator.Fault
import Calculator.Failure.Basic
import Calculator.Failure.Report
import Calculator.Outcome
import Calculator.Number
import Calculator.Token.Numeral
import Calculator.Token.Lexer
import Calculator.Token.Cursor
import Calculator.Expr.Basic
import Calculator.Expr.Parser
import Calculator.Stop
import Calculator.Expr.Eval
import Calculator.Calculation
import Calculator.Session
import Calculator.Main
import Calculator.Proofs.Syntax.Grammar
import Calculator.Proofs.Syntax.Scan
import Calculator.Proofs.Syntax.Reading
import Calculator.Proofs.Syntax.Uniqueness
import Calculator.Proofs.Syntax.Parsing
import Calculator.Proofs.Syntax.Unbounded
import Calculator.Proofs.Syntax.Nesting
import Calculator.Proofs.Evaluation.Integers
import Calculator.Proofs.Evaluation.FirstFailure
import Calculator.Proofs.Arithmetic.Range
import Calculator.Proofs.Arithmetic.Overflow
import Calculator.Proofs.Tokens.Coverage
import Calculator.Proofs.Tokens.FirstCall
import Calculator.Proofs.Tokens.FirstLine
import Calculator.Proofs.Evaluation.Places
import Calculator.Proofs.Evaluation.Depth
import Calculator.Proofs.Syntax.Trees
import Calculator.Proofs.Calculation.Answers
import Calculator.Proofs.Calculation.Places
import Calculator.Proofs.Evaluation.Relocation
import Calculator.Proofs.Calculation.Spacing
import Calculator.Proofs.Calculation.Limits
import Calculator.Proofs.Source.Lines
import Calculator.Proofs.Source.Excerpt
import Calculator.Proofs.Tokens.Legality
import Calculator.Proofs.Session.Lines
import Calculator.Proofs.Session.Transcripts
import Calculator.Proofs.Arithmetic.Rounding
import Calculator.Proofs.Arithmetic.Infinity
import Calculator.Proofs.Evaluation.Infinity
import Calculator.Proofs.Syntax.Spans
import Calculator.Proofs.Tokens.Shifts
import Calculator.Proofs.Tokens.Concatenation
import Calculator.Proofs.Syntax.Composition
import Calculator.Proofs.Arithmetic.Decimals
import Calculator.Proofs.Calculation.RoundTrip
import Calculator.Proofs.Tokens.Requests
import Calculator.Proofs.Syntax.Termination
import Calculator.Proofs.Calculation.Records
import Calculator.Proofs.Failure.Traceback
import Calculator.Proofs.Arithmetic.Nearest
import Calculator.Proofs.Arithmetic.Texts
import Calculator.Proofs.Syntax.Texts
import Calculator.Proofs.Syntax.Consumption
