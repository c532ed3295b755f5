import Calculator.Double.Rounding

/-!
# The shortest decimal of a double

A double is written with the fewest digits that identify it, and among decimals with that many
digits with the one nearest to it. The search goes through the grids of multiples of `10 ^ g` from
coarse to fine. On each it tries the two neighbours of the magnitude, the nearer one first, and
takes the first that rounds back to the same double.

A grid with 17 digits always has a neighbour that rounds back, so the search does not leave the
grids it looks at. It is not needed for the result to be right that this is so: after the last grid
stands the exact value of the double, which is a decimal too.
-/

namespace Calculator.Double

/-- A magnitude given in units, divided by `10 ^ g`, as numerator and denominator. -/
def onGrid (magnitude : Nat) (g : Int) : Nat × Nat :=
  if 0 ≤ g then (magnitude, unitsPerOne * Nat.pow 10 g.toNat)
  else (magnitude * Nat.pow 10 (-g).toNat, unitsPerOne)

/-- The two whole neighbours of a quotient, the nearer one first. Of an even and an odd neighbour
at the same distance the even one counts as nearer. -/
def neighbours (num den : Nat) : List Nat :=
  let near := roundHalfEven num den
  [near, 2 * (num / den) + 1 - near]

/-- Does a decimal round to the magnitude of a given rank? -/
def roundsTo (rank : Fin magnitudeCount) (decimal : Decimal) : Bool :=
  ofDecimal false decimal = finite false rank

/-- The decimal on the grid of multiples of `10 ^ g` that rounds to a magnitude, the nearer of two,
if there is one. -/
def onGrid? (rank : Fin magnitudeCount) (g : Int) : Option Decimal :=
  let (num, den) := onGrid (units rank) g
  ((neighbours num den).map fun digits ↦ Decimal.mk digits g).find? (roundsTo rank)

/-- The exponent of a grid that is too coarse for a magnitude, but for no magnitude more than two
grids too coarse: a binary logarithm times `log 2 / log 10`, which is a little less than
`30103 / 100000`. -/
def coarsest (magnitude : Nat) : Int :=
  ((magnitude.log2 : Int) + 1 - unitExponent) * 30103 / 100000 + 1

/-- The exact value of a magnitude given in units, as a decimal. -/
def exact (magnitude : Nat) : Decimal := ⟨magnitude * Nat.pow 5 unitExponent, -unitExponent⟩

/-- How many grids are tried: 17 digits and the two grids by which the first may be too coarse. -/
abbrev gridCount : Nat := 20

/-- The decimal with the fewest digits that rounds to the magnitude of a given rank, and the
nearest of these. -/
def shortest (rank : Fin magnitudeCount) : Decimal :=
  ((List.range gridCount).findSome? fun (i : Nat) ↦ onGrid? rank (coarsest (units rank) - i)).getD
    (exact (units rank))

end Calculator.Double
