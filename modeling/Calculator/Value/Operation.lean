import Calculator.Double.Arithmetic
import Calculator.Value.Basic

/-!
# Operations on values

The four binary operations. Integers stay integers under all but division, whose result is always
a double. As soon as one operand is a double, an integer operand is converted to the nearest double
first.

There are two ways to fail. Dividing by a value equal to zero fails, whatever the dividend, before
anything is converted. And an integer that is converted, or a quotient of two integers, may round
beyond the largest finite double, which is an overflow. Arithmetic on two doubles never fails: it
goes to infinity.
-/

namespace Calculator

/-- A binary operation. -/
inductive Operation where
  | add
  | sub
  | mul
  | div
deriving DecidableEq

/-- Why an operation has no result. -/
inductive ArithmeticError where
  | divisionByZero
  | overflow
deriving DecidableEq

namespace Operation

/-- The operation on doubles. -/
def onDoubles : Operation → Double → Double → Double
  | add => Double.add
  | sub => Double.sub
  | mul => Double.mul
  | div => Double.div

/-- The operation on integers; only division leaves them, and may overflow. -/
def onIntegers : Operation → Int → Int → Option Value
  | add, a, b => some (.int (a + b))
  | sub, a, b => some (.int (a - b))
  | mul, a, b => some (.int (a * b))
  | div, a, b => (Double.ofQuotient? a b).map .float

/-- The operation on values, with no regard to a zero divisor; nothing on overflow. -/
def combine? (operation : Operation) : Value → Value → Option Value
  | .int a, .int b => operation.onIntegers a b
  | .int a, .float y => (Double.ofInt? a).map fun x ↦ .float (operation.onDoubles x y)
  | .float x, .int b => (Double.ofInt? b).map fun y ↦ .float (operation.onDoubles x y)
  | .float x, .float y => some (.float (operation.onDoubles x y))

/-- The operation on values. -/
def apply (operation : Operation) (left right : Value) : Except ArithmeticError Value :=
  if operation = div ∧ right.isZero then .error .divisionByZero
  else
    match operation.combine? left right with
    | some value => .ok value
    | none => .error .overflow

end Operation

end Calculator
