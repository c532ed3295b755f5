import Calculator.Expr.Eval
import Calculator.Expr.Parser
import Calculator.Failure.Report
import Calculator.Token.Lexer

/-!
# Calculations

A calculation takes a source through lexing, parsing and evaluation. It ends with a number, or with
the first stage that has none to give. What the stages before found is kept, for whoever wants to
look into it.

The text of a calculation is the number or the message of the failure. There is none if the
calculation was given up, and none if the number is an integer that is too long to be written.
-/

namespace Calculator

/-- What became of a source. -/
structure Calculation where
  /-- The tokens, if the whole source consists of tokens. -/
  tokens? : Option (List Token) := none
  /-- The expression, if the tokens are one. -/
  expr? : Option Expr := none
  result : Except Stop Number

/-- The calculation of an expression that was read from tokens. -/
def Calculation.ofOutcome (tokens : List Token) (outcome : Outcome Expr Failure) : Calculation :=
  match outcome.error?, outcome.value? with
  | some failure, _ => { tokens? := some tokens, result := .error (.failure failure) }
  | none, some expr =>
    { tokens? := some tokens, expr? := some expr
      result := expr.evaluate .program Expr.depthBudget }
  | none, none => { tokens? := some tokens, result := .error (.fault .noTokens) }

/-- The calculation of a source. -/
def Source.calculate (source : Source) : Calculation :=
  match source.lex with
  | .error fault => { result := .error (.fault fault) }
  | .ok { tokens, failure? := none } => .ofOutcome tokens (Expr.parse tokens)
  | .ok { failure? := some failure, .. } => { result := .error (.failure failure) }

namespace Number

/-- The text of a number as a result. -/
def text (number : Number) : Except Fault String :=
  match number.value? with
  | some value => writable value.isWritable (.ofList value.result)
  | none => .ok "None"

end Number

namespace Calculation

/-- The number, or what is wrong. -/
def text (calculation : Calculation) : Except Fault String :=
  match calculation.result with
  | .ok number => number.text
  | .error (.failure failure) => failure.message
  | .error (.fault fault) => .error fault

/-- The line that shows the tokens of a source. -/
def tokensLine (tokens : List Token) : String :=
  let lexemes := tokens.map fun token ↦ String.ofList token.lexeme.write
  "DEBUG: TokenList: [" ++ ", ".intercalate lexemes ++ "]\n"

/-- The line that shows the expression of a source. -/
def exprLine (expr : Expr) : String :=
  "DEBUG: AbstractSyntaxTree: " ++ .ofList expr.write ++ "\n"

/-- What the stages found, a line for each. -/
def trace (calculation : Calculation) : List String :=
  (calculation.tokens?.map tokensLine).toList ++ (calculation.expr?.map exprLine).toList

end Calculation

end Calculator
