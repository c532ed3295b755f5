import Calculator.Fault
import Calculator.Double.Rounding

/-!
# The spelling of numerals

A numeral is a run of digits, which may go on with a point and another run of digits. Without a
point it is an integer, and with one it is a double: the double nearest to the decimal that is
written, however many digits that takes.

`Numeral.ofText` takes the longest numeral at the beginning of a text, and it may be empty. The
lexer asks for one only where a digit stands, so that the two spellings without a digit, none at all
and a lone point, are faults of whoever asks for a numeral elsewhere.
-/

namespace Calculator

/-- The spelling of a numeral: the digits before the point and, if there is a point, the digits
after it. -/
structure Numeral where
  whole : List Char
  fraction? : Option (List Char)
deriving DecidableEq

namespace Numeral

/-- The longest numeral at the beginning of a text. -/
def ofText (text : List Char) : Numeral where
  whole := text.takeWhile Char.isDigit
  fraction? :=
    match text.dropWhile Char.isDigit with
    | '.' :: rest => some (rest.takeWhile Char.isDigit)
    | _ => none

/-- The characters of a numeral. -/
def text (numeral : Numeral) : List Char :=
  numeral.whole ++
    match numeral.fraction? with
    | some fraction => '.' :: fraction
    | none => []

/-- The decimal that digits before and after a point stand for. -/
def decimal (whole fraction : List Char) : Decimal :=
  ⟨Text.ofDigits (whole ++ fraction), -fraction.length⟩

/-- The lexeme that a numeral spells. -/
def lexeme (numeral : Numeral) : Except Fault Lexeme :=
  match numeral.whole, numeral.fraction? with
  | [], none => .error .emptyNumeral
  | [], some [] => .error .loneDot
  | whole, none =>
    if whole.length ≤ digitLimit then .ok (.literal (.int (Text.ofDigits whole)))
    else .error (.literalTooLong whole.length)
  | whole, some fraction => .ok (.literal (.float (.ofDecimal false (decimal whole fraction))))

/-- Where a digit stands there is a numeral. -/
theorem text_ofText_ne_nil {c : Char} (h : c.isDigit = true) (rest : List Char) :
    (ofText (c :: rest)).text ≠ [] := by
  simp [ofText, Numeral.text, h]

end Numeral

end Calculator
