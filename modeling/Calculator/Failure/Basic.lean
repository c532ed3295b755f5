import Calculator.Value.Operation
import Calculator.Source.Basic

/-!
# Failures

A failure says what is wrong with a source and where. What is wrong is a `Cause`, a constructor for
each way to fail, whose wording is given in one place: a title and details. Where is an `Extent`,
since arithmetic on numbers without a place fails without one.

A failure at run time also carries the context in which the calculation took place, a chain of
named frames.
-/

namespace Calculator

/-- One level of a calculation: its name, and where the level around it was left to enter it. -/
structure Frame where
  name : String
  entry? : Option Position := none
deriving DecidableEq

/-- The frames of a calculation, innermost first. -/
abbrev Context := List Frame

/-- The context of a program as a whole. -/
def Context.program : Context := [{ name := "<program>" }]

/-- What is wrong with a sequence of tokens. -/
inductive SyntaxProblem where
  /-- Something else stands where an operand must begin. -/
  | expectedOperand
  /-- Something else follows an operand inside an open parenthesis. -/
  | expectedClosing
  /-- Something else follows a complete expression. -/
  | expectedOperator
  | tooDeep
  /-- A problem in the caller's own words. -/
  | noted (details : String)
deriving DecidableEq

/-- What goes wrong when an expression is evaluated. -/
inductive RuntimeProblem where
  | arithmetic (error : ArithmeticError)
  | tooDeep
  /-- A problem in the caller's own words. -/
  | noted (details : String)
deriving DecidableEq

/-- Why a source has no value. -/
inductive Cause where
  /-- No token begins with this character. -/
  | illegalCharacter (found : String)
  | invalidSyntax (problem : SyntaxProblem)
  | runtime (problem : RuntimeProblem) (context : Context)
  /-- A cause in the caller's own words. -/
  | titled (title details : String)
deriving DecidableEq

/-- A cause and the stretch of the source to blame. -/
structure Failure where
  cause : Cause
  extent : Extent
deriving DecidableEq

/-! ### Wording -/

/-- The details of a failure by nesting, in the source or in the expression. -/
def tooDeepDetails : String := "Expression too deeply nested"

namespace SyntaxProblem

/-- The problem in words. -/
def details : SyntaxProblem → String
  | expectedOperand => "Expected int, float, '+', '-' or '('"
  | expectedClosing => "Expected ')'"
  | expectedOperator => "Expected '+', '-', '*' or '/'"
  | tooDeep => tooDeepDetails
  | noted details => details

end SyntaxProblem

/-- The error in words. -/
def ArithmeticError.details : ArithmeticError → String
  | divisionByZero => "Division by zero"
  | overflow => "Numeric overflow"

/-- The problem in words. -/
def RuntimeProblem.details : RuntimeProblem → String
  | arithmetic error => error.details
  | tooDeep => tooDeepDetails
  | noted details => details

namespace Cause

/-- What kind of cause it is. -/
def title : Cause → String
  | illegalCharacter _ => "Illegal Character"
  | invalidSyntax _ => "Invalid Syntax"
  | runtime _ _ => "Runtime Error"
  | titled title _ => title

/-- What in particular is wrong. -/
def details : Cause → String
  | illegalCharacter found => found
  | invalidSyntax problem => problem.details
  | runtime problem _ => problem.details
  | titled _ details => details

end Cause

end Calculator
