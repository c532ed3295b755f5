/-!
# Double precision numbers

A `Double` is a binary64 datum: a finite number, an infinity, or the one NaN. A finite number is
a sign and the *rank* of its magnitude, its place in the ascending list of all finite magnitudes.
Every rank is a magnitude and no magnitude has two, so equal data are equal terms and no invariant
is needed.

All finite magnitudes are whole multiples of one *unit*, `2 ^ -1074`, and `units` gives the
multiple: the ranks of the first run of `2 ^ 52` are the multiples themselves, and with each run
after the second the distance between neighbours doubles. Arithmetic is done on these natural
numbers.

Zero has a sign: `finite true 0` is the negative zero.
-/

namespace Calculator

/-- The number of magnitudes in a run, `2 ^ 52`. -/
abbrev Double.runLength : Nat := 4503599627370496

/-- The number of finite magnitudes: a run for each of 2047 exponents. -/
abbrev Double.magnitudeCount : Nat := 2047 * runLength

/-- A binary64 datum. -/
inductive Double where
  | nan
  | infinite (negative : Bool)
  | finite (negative : Bool) (rank : Fin Double.magnitudeCount)
deriving DecidableEq

namespace Double

/-- A unit is `2 ^ -unitExponent`, the least positive magnitude. -/
abbrev unitExponent : Nat := 1074

/-- The number one, in units. -/
abbrev unitsPerOne : Nat := 1 <<< unitExponent

/-- The magnitude of a given rank, in units. -/
def units (rank : Nat) : Nat :=
  if rank < runLength then rank
  else (runLength + rank % runLength) <<< (rank / runLength - 1)

/-- An integer with a given sign and magnitude. -/
def signed (negative : Bool) (magnitude : Nat) : Int :=
  if negative then -magnitude else magnitude

/-- Is this one of the two zeros? -/
def isZero : Double → Bool
  | finite _ rank => rank.val = 0
  | _ => false

/-- The integer that a double is, for a finite double without a fraction. -/
def toInt? : Double → Option Int
  | finite negative rank =>
    if units rank % unitsPerOne = 0 then some (signed negative (units rank / unitsPerOne))
    else none
  | _ => none

/-- The number with the opposite sign. -/
def neg : Double → Double
  | nan => nan
  | infinite negative => infinite !negative
  | finite negative rank => finite (!negative) rank

end Double

end Calculator
