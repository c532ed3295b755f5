import Calculator.Double.Basic

/-!
# Rounding to a double

Every operation on doubles is the exact result rounded once, to the nearest double and on a tie to
the one of even rank. `Double.ofUnits` is that rounding, for a quotient of natural numbers counted
in units; integers and decimals reach it by expressing themselves in units first.

Results that round beyond the largest finite magnitude become infinite; `ofInt?` refuses them
instead.
-/

namespace Calculator

/-- The natural number nearest to `num / den`, the even one of two equally near. -/
def roundHalfEven (num den : Nat) : Nat :=
  let quotient := num / den
  let twice := 2 * (num % den)
  if twice < den then quotient
  else if den < twice then quotient + 1
  else if quotient % 2 = 0 then quotient else quotient + 1

/-- A decimal number, `digits * 10 ^ exponent`. -/
structure Decimal where
  digits : Nat
  exponent : Int
deriving DecidableEq

namespace Double

/-- The rank of the magnitude nearest to `num / den` units, which is no rank of a finite magnitude
if the quotient is too large. Where neighbours are `2 ^ spread` units apart, the rank is `spread`
runs and the number of such steps in the quotient. -/
def nearestRank (num den : Nat) : Nat :=
  let spread := (num / den).log2 - 52
  spread * runLength + roundHalfEven num (den <<< spread)

/-- The double nearest to `num / den` units, with a given sign. -/
def ofUnits (negative : Bool) (num den : Nat) : Double :=
  let rank := nearestRank num den
  if h : rank < magnitudeCount then finite negative ⟨rank, h⟩ else infinite negative

/-- The double, unless it is infinite. -/
def unlessInfinite : Double → Option Double
  | infinite _ => none
  | x => some x

/-- The double nearest to an integer, unless that is infinite. -/
def ofInt? (n : Int) : Option Double := (ofUnits (n < 0) (n.natAbs * unitsPerOne) 1).unlessInfinite

/-- The double nearest to a quotient of integers, unless that is infinite. The sign is that of the
quotient, also of a quotient that is or rounds to zero. -/
def ofQuotient? (a b : Int) : Option Double :=
  (ofUnits ((a < 0) != (b < 0)) (a.natAbs * unitsPerOne) b.natAbs).unlessInfinite

/-- The double nearest to a decimal number, with a given sign. -/
def ofDecimal (negative : Bool) (decimal : Decimal) : Double :=
  if 0 ≤ decimal.exponent then
    ofUnits negative (decimal.digits * Nat.pow 10 decimal.exponent.toNat * unitsPerOne) 1
  else
    ofUnits negative (decimal.digits * unitsPerOne) (Nat.pow 10 (-decimal.exponent).toNat)

end Double

end Calculator
