import Calculator.Token.Basic

/-!
# Faults

A `Fault` ends a calculation without a report on the source: the input goes beyond a limit of the
calculator, or a token or an expression that was put together by hand asks for something that has
no meaning. What the source itself does wrong is a `Failure` instead, and has a place.
-/

namespace Calculator

/-- Why a calculation was given up. -/
inductive Fault where
  /-- An integer literal has more digits than are read. -/
  | literalTooLong (digits : Nat)
  /-- An integer has more digits than are written. -/
  | resultTooLong
  /-- A numeral was asked for where there is neither a digit nor a point. -/
  | emptyNumeral
  /-- A numeral was asked for where there is a point without digits. -/
  | loneDot
  /-- An expression was asked for where there is not a single token. -/
  | noTokens
  /-- An operation was asked for on numbers of which one has no value. -/
  | missingOperand (operation : Operation) (left? right? : Option Value)
  /-- An expression is no number, no unary and no binary operation. -/
  | unknownNode (name : String)
  /-- A binary operation has an operator that stands for none. -/
  | unknownOperator (kind : Kind)
  /-- A report has to name a place that is not known. -/
  | unknownPlace
  /-- A rule of the grammar or of evaluation used up its budget for nesting. -/
  | tooDeep
deriving DecidableEq

namespace Fault

/-- The fault in words. -/
def message : Fault → String
  | literalTooLong digits =>
    "an integer literal has " ++ .ofList (Text.digits digits) ++ " digits, more than " ++
      .ofList (Text.digits digitLimit)
  | resultTooLong => "an integer has more than " ++ .ofList (Text.digits digitLimit) ++ " digits"
  | emptyNumeral => "there is no numeral here"
  | loneDot => "a point without digits is no numeral"
  | noTokens => "there are no tokens"
  | missingOperand _ _ _ => "an operand has no value"
  | unknownNode name => "an expression of kind " ++ name ++ " cannot be evaluated"
  | unknownOperator kind => kind.name ++ " is no binary operator"
  | unknownPlace => "a report names a place that is not known"
  | tooDeep => "the expression is too deeply nested"

end Fault

/-- A text, if what it is the text of is short enough to be written. -/
@[macro_inline] def writable {α : Type} (isWritable : Bool) (text : α) : Except Fault α :=
  if isWritable then .ok text else .error .resultTooLong

end Calculator
