import Calculator.Double.Text

/-!
# Values

A value is an unbounded integer or a double. It has two texts: the one of a literal, in which a
double always shows that it is one (`5.0`), and the one of a result, in which a double that is an
integer below `2 ^ 53` in magnitude is written like that integer (`5`, and `0` for both zeros).

Integers with more than 4300 digits are neither read nor written, though they may arise in between:
`Value.isWritable` tells which values have a text.
-/

namespace Calculator

/-- The most decimal digits of an integer that is read or written; the sign does not count. -/
abbrev digitLimit : Nat := 4300

/-- A number as it is calculated with. -/
inductive Value where
  | int (n : Int)
  | float (x : Double)
deriving DecidableEq

namespace Value

/-- Is the value equal to zero? -/
def isZero : Value → Bool
  | int n => n = 0
  | float x => x.isZero

/-- Is the value short enough to be written? Doubles always are. -/
def isWritable : Value → Bool
  | int n => n.natAbs < Nat.pow 10 digitLimit
  | float _ => true

/-- The text of the value as a literal. -/
def literal : Value → List Char
  | int n => Text.integer n
  | float x => x.write

/-- The integer as which a double is written in a result, if it is one and below `2 ^ 53` in
magnitude: up to there every integer is a double, so none is written in place of another. -/
def asInteger? (x : Double) : Option Int :=
  x.toInt?.filter fun n ↦ n.natAbs < 2 * Double.runLength

/-- The text of the value as a result. -/
def result : Value → List Char
  | int n => Text.integer n
  | float x =>
    match asInteger? x with
    | some n => Text.integer n
    | none => x.write

end Value

end Calculator
