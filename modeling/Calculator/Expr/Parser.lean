import Calculator.Expr.Basic
import Calculator.Failure.Basic
import Calculator.Outcome
import Calculator.Token.Cursor

/-!
# Parsing

A `Rule` reads an expression from a token cursor on and says where it ended. The rules of the
grammar are

* `factor`: a sign and a factor, a literal, or an expression between parentheses;
* `term`: factors between `*` and `/`;
* `expr`: terms between `+` and `-`.

Terms and expressions are loops over operands, so that operators of one rank group to the left and
cost no nesting. A rule that gives no expression stops at the token that is to blame.

Nesting is bounded by a budget: an open sign costs one and an open parenthesis five. The budget is
spent when the sign or the parenthesis is read, so that a problem further left is met first and one
further right is never seen. It also ends the parsing of a list that repeats a sign or a parenthesis
for ever.
-/

namespace Calculator

/-- A way to read an expression: the expression or the problem, and the cursor where it ended. -/
abbrev Rule := TokenCursor → Except SyntaxProblem Expr × TokenCursor

/-- The failure of a rule that stopped at a cursor. -/
def SyntaxProblem.failure (problem : SyntaxProblem) (cursor : TokenCursor) : Failure where
  cause := .invalidSyntax problem
  extent := cursor.current.extent

namespace Rule

/-- Goes on after a left operand for as long as operators follow, at most a round for each token of
a list. -/
def chain (operand : Rule) (isOperator : Kind → Bool) : List Token → Expr → Rule
  | [], left, cursor => (.ok left, cursor)
  | _ :: rounds, left, cursor =>
    if isOperator cursor.current.kind then
      match operand cursor.advance with
      | (.ok right, after) =>
        chain operand isOperator rounds (.binary left cursor.current right) after
      | (.error problem, after) => (.error problem, after)
    else (.ok left, cursor)

/-- Operands with operators between them, grouped to the left. Every round uses up an operator, so
that there are rounds enough if there is one for each token that is left after the first operand.
-/
def binary (operand : Rule) (isOperator : Kind → Bool) : Rule := fun cursor ↦
  match operand cursor with
  | (.ok left, after) => chain operand isOperator (after.current :: after.rest) left after
  | (.error problem, after) => (.error problem, after)

/-- Is this one of the operators between factors? -/
def isMultiplicative (kind : Kind) : Bool := kind = .mul || kind = .div

/-- Is this one of the operators between terms? -/
def isAdditive (kind : Kind) : Bool := kind = .plus || kind = .minus

/-- A sign and a factor, a literal, or an expression between parentheses, within a budget for what
is open at a time. -/
def factor (budget : Nat) : Rule := fun cursor ↦
  match cursor.current.kind with
  | .plus | .minus =>
    match budget with
    | 0 => (.error .tooDeep, cursor.advance)
    | budget + 1 =>
      match factor budget cursor.advance with
      | (.ok operand, after) => (.ok (.unary cursor.current operand), after)
      | (.error problem, after) => (.error problem, after)
  | .int | .float => (.ok (.number cursor.current), cursor.advance)
  | .lparen =>
    match budget with
    | budget + 5 =>
      match binary (binary (factor budget) isMultiplicative) isAdditive cursor.advance with
      | (.ok inner, after) =>
        if after.current.kind = .rparen then (.ok inner, after.advance)
        else (.error .expectedClosing, after)
      | (.error problem, after) => (.error problem, after)
    | _ => (.error .tooDeep, cursor.advance)
  | _ => (.error .expectedOperand, cursor)

/-- Factors between `*` and `/`. -/
def term (budget : Nat) : Rule := binary (factor budget) isMultiplicative

/-- Terms between `+` and `-`. -/
def expr (budget : Nat) : Rule := binary (term budget) isAdditive

/-- An expression and nothing after it. What follows an expression is an error, but the expression
has been read and is kept. -/
def program (budget : Nat) (cursor : TokenCursor) : Outcome Expr Failure × TokenCursor :=
  match expr budget cursor with
  | (.ok value, after) =>
    let outcome : Outcome Expr Failure := { value? := some value }
    if after.current.kind = .eof then (outcome, after)
    else (outcome.failure (SyntaxProblem.expectedOperator.failure after), after)
  | (.error problem, after) => ({ error? := some (problem.failure after) }, after)

end Rule

/-- How much may be open at a time in a source: a sign counts one and a parenthesis five. -/
def nestingBudget : Nat := 990

/-- The expression that a list of tokens is. Of an empty list there is nothing to say. -/
def Expr.parse (tokens : List Token) : Outcome Expr Failure :=
  match TokenCursor.ofTokens? tokens with
  | some cursor => (Rule.program nestingBudget cursor).1
  | none => {}

end Calculator
