import Calculator.Stop

/-!
# Numbers

A `Number` is a value together with the stretch of the source that it comes from and the context in
which it was calculated. An operation blames its operands' places when it fails: a division by zero
the divisor, an overflow everything from the left operand to the right one. The result has the
context of the left operand and no place; whoever asked for the operation knows the place.

The number of a literal that was put together by hand may lack a value. It can be passed on and
shown, but not calculated with: an operation on it is given up, unless it fails because of a divisor
equal to zero.
-/

namespace Calculator

/-- A value with its place and its context. -/
structure Number where
  value? : Option Value := none
  extent : Extent := {}
  context : Context := []
deriving DecidableEq

namespace Number

/-- The number at another place. -/
def setExtent (number : Number) (extent : Extent) : Number := { number with extent }

/-- The number in another context. -/
def setContext (number : Number) (context : Context) : Number := { number with context }

/-- The stretch to blame for an error of an operation. -/
def blame (left right : Number) : ArithmeticError → Extent
  | .divisionByZero => right.extent
  | .overflow => ⟨left.extent.start?, right.extent.stop?⟩

/-- The failure of an operation, in the context of its left operand. -/
def failure (left right : Number) (error : ArithmeticError) : Failure :=
  ⟨.runtime (.arithmetic error) left.context, blame left right error⟩

/-- The operation on two numbers. A divisor equal to zero is a failure whatever there is to divide;
otherwise both values are needed. -/
def combine (operation : Operation) (left right : Number) : Except Stop Number :=
  match left.value?, right.value? with
  | some a, some b =>
    match operation.apply a b with
    | .ok value => .ok { value? := some value, context := left.context }
    | .error error => .error (.failure (failure left right error))
  | a?, b? =>
    if operation = .div ∧ b?.any Value.isZero then
      .error (.failure (failure left right .divisionByZero))
    else .error (.fault (.missingOperand operation a? b?))

end Number

end Calculator
