import Calculator.Double.Rounding

/-!
# Arithmetic on doubles

Sum, difference, product and quotient of two doubles: on finite numbers the exact result rounded
once, on infinities and NaN the limits and NaN where there is no limit. No operation fails, and a
result beyond the largest finite magnitude is infinite.

An exact sum of zero is the negative zero only if both summands have a negative sign; products and
quotients have the sign in which their operands differ, also when they are zero.
-/

namespace Calculator.Double

/-- The sum. Opposite infinities have none. -/
def add : Double → Double → Double
  | nan, _ => nan
  | _, nan => nan
  | infinite a, infinite b => if a = b then infinite a else nan
  | infinite a, finite _ _ => infinite a
  | finite _ _, infinite b => infinite b
  | finite a m, finite b n =>
    let sum := signed a (units m) + signed b (units n)
    if sum = 0 then ofUnits (a && b) 0 1 else ofUnits (sum < 0) sum.natAbs 1

/-- The difference. -/
def sub (x y : Double) : Double := x.add y.neg

/-- The product. An infinity times a zero has none. -/
def mul : Double → Double → Double
  | nan, _ => nan
  | _, nan => nan
  | infinite a, infinite b => infinite (a != b)
  | infinite a, finite b n => if n.val = 0 then nan else infinite (a != b)
  | finite a m, infinite b => if m.val = 0 then nan else infinite (a != b)
  | finite a m, finite b n => ofUnits (a != b) (units m * units n) unitsPerOne

/-- The quotient. Two infinities and two zeros have none; a zero divides all else to an
infinity. -/
def div : Double → Double → Double
  | nan, _ => nan
  | _, nan => nan
  | infinite _, infinite _ => nan
  | infinite a, finite b _ => infinite (a != b)
  | finite a _, infinite b => ofUnits (a != b) 0 1
  | finite a m, finite b n =>
    if n.val = 0 then (if m.val = 0 then nan else infinite (a != b))
    else ofUnits (a != b) (units m * unitsPerOne) (units n)

end Calculator.Double
