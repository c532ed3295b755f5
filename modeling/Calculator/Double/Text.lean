import Calculator.Double.Shortest
import Calculator.Text.Numeral

/-!
# The text of a double

A double is written with its shortest digits. The point stands among them if the exponent of the
leading digit is at least -4 and below 16, and then at least one digit follows it; otherwise the
point follows the leading digit, if there are more, and a signed exponent of at least two digits
follows. `Double.ofText?` reads these texts.
-/

namespace Calculator

namespace Decimal

/-- The exponent of the leading digit. -/
def leading (decimal : Decimal) : Int := decimal.exponent + (Text.digits decimal.digits).length - 1

/-- Digits with the point at its place: at least one digit stands before it and one after. -/
def positional (decimal : Decimal) : List Char :=
  let ds := Text.digits decimal.digits
  if 0 ≤ decimal.exponent then
    ds ++ List.replicate decimal.exponent.toNat '0' ++ ['.', '0']
  else
    let places := (-decimal.exponent).toNat
    let padded := List.replicate (places + 1 - ds.length) '0' ++ ds
    padded.take (padded.length - places) ++ '.' :: padded.drop (padded.length - places)

/-- Digits with the point after the first one, and an exponent. -/
def scientific (decimal : Decimal) : List Char :=
  let ds := Text.digits decimal.digits
  let fraction := if ds.tail.isEmpty then [] else '.' :: ds.tail
  let sign := if decimal.leading < 0 then '-' else '+'
  let exponent := Text.digits decimal.leading.natAbs
  ds.take 1 ++ fraction ++
    'e' :: sign :: List.replicate (2 - exponent.length) '0' ++ exponent

/-- Positional for a leading digit from the fourth place after the point to the 16th before it. -/
def write (decimal : Decimal) : List Char :=
  if -4 ≤ decimal.leading ∧ decimal.leading < 16 then decimal.positional else decimal.scientific

/-- Reads digits, a point and more digits, and an exponent. Point and exponent may be missing, but
not all digits. -/
def ofText? (text : List Char) : Option Decimal :=
  let whole := text.takeWhile Char.isDigit
  let (fraction, rest) := match text.dropWhile Char.isDigit with
    | '.' :: rest => (rest.takeWhile Char.isDigit, rest.dropWhile Char.isDigit)
    | rest => ([], rest)
  let shifted (exponent : Int) : Option Decimal :=
    if (whole ++ fraction).isEmpty then none
    else some ⟨Text.ofDigits (whole ++ fraction), exponent - fraction.length⟩
  match rest with
  | [] => shifted 0
  | 'e' :: '-' :: exponent =>
    if exponent.all Char.isDigit then shifted (-(Text.ofDigits exponent)) else none
  | 'e' :: '+' :: exponent =>
    if exponent.all Char.isDigit then shifted (Text.ofDigits exponent) else none
  | _ => none

end Decimal

namespace Double

/-- The text of a double. -/
def write : Double → List Char
  | nan => ['n', 'a', 'n']
  | infinite negative => Text.withSign negative ['i', 'n', 'f']
  | finite negative rank =>
    Text.withSign negative (if rank.val = 0 then ['0', '.', '0'] else (shortest rank).write)

/-- Reads the text of a double without its sign. -/
def ofUnsignedText? (negative : Bool) (text : List Char) : Option Double :=
  if text = ['n', 'a', 'n'] then some nan
  else if text = ['i', 'n', 'f'] then some (infinite negative)
  else (Decimal.ofText? text).map (ofDecimal negative)

/-- Reads the text of a double. -/
def ofText? : List Char → Option Double
  | '-' :: text => ofUnsignedText? true text
  | text => ofUnsignedText? false text

end Double

end Calculator
