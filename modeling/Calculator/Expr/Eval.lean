import Calculator.Expr.Basic
import Calculator.Number
import Calculator.Stop

/-!
# Evaluation

The number that an expression stands for, in a context. Operands are evaluated before the operation
and from left to right, so the first failure in that order is the failure of the whole. Every number
gets the place of the expression that it is the value of, which is what a later failure blames.

A literal is the number of its token, with no value if the token has none. A minus sign multiplies
its operand by minus one; every other sign leaves it as it is.

Nesting is bounded by a budget of which every level of the expression takes two. `visit` stops with
a fault when the budget is used up, and `evaluate` makes that a failure of the whole expression.
-/

namespace Calculator

namespace Number

/-- The number under a sign. -/
def signed (number : Number) (sign : Kind) : Except Stop Number :=
  if sign = .minus then number.combine .mul { value? := some (.int (-1)) } else .ok number

end Number

namespace Expr

/-- The number that an expression stands for, within a budget for its depth. -/
def visit (context : Context) : Nat → Expr → Except Stop Number
  | _ + 2, number token => .ok ⟨token.lexeme.value?, token.extent, context⟩
  | budget + 2, unary operator operand => do
    let value ← visit context budget operand
    let signed ← value.signed operator.kind
    return signed.setExtent (unary operator operand).extent
  | budget + 2, binary left operator right => do
    let a ← visit context budget left
    let b ← visit context budget right
    match operator.kind.operation? with
    | some operation =>
      let value ← a.combine operation b
      return value.setExtent (binary left operator right).extent
    | none => .error (.fault (.unknownOperator operator.kind))
  | _ + 2, foreign name _ => .error (.fault (.unknownNode name))
  | _, _ => .error (.fault .tooDeep)

/-- The number that an expression stands for, with too deep nesting a failure like others. -/
def evaluate (context : Context) (budget : Nat) (expr : Expr) : Except Stop Number :=
  match expr.visit context budget with
  | .error (.fault .tooDeep) =>
    .error (.failure ⟨.runtime .tooDeep context, expr.extent⟩)
  | result => result

/-- How deep the expression of a source may be: a level counts two. -/
def depthBudget : Nat := 990

end Expr

end Calculator
