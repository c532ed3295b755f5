import Calculator.Failure.Basic
import Calculator.Fault

/-!
# Stops

A calculation that gives no number stops in one of two ways: the source fails, which is reported
with its place, or the calculation is given up.
-/

namespace Calculator

/-- Why there is no number. -/
inductive Stop where
  | failure (failure : Failure)
  | fault (fault : Fault)
deriving DecidableEq

end Calculator
