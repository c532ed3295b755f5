/-!
# Decimal numerals

Digits of natural numbers and of integers, as lists of characters with the leading digit first.
-/

namespace Calculator.Text

/-- The decimal digits of a natural number. Zero has one digit, no other number a leading zero. -/
def digits (n : Nat) : List Char := Nat.toDigits 10 n

/-- The natural number that digits stand for; zero for no digits. -/
def ofDigits (digits : List Char) : Nat := Nat.ofDigitChars 10 digits 0

/-- A text with a minus in front of it if it stands for a negative number. -/
def withSign (negative : Bool) (text : List Char) : List Char :=
  if negative then '-' :: text else text

/-- The decimal numeral of an integer. -/
def integer (n : Int) : List Char := withSign (n < 0) (digits n.natAbs)

@[simp] theorem ofDigits_digits (n : Nat) : ofDigits (digits n) = n :=
  Nat.ofDigitChars_ten_toDigits

theorem isDigit_of_mem_digits {n : Nat} {c : Char} (h : c ∈ digits n) : c.isDigit = true :=
  Nat.isDigit_of_mem_toDigits (b := 10) (by decide) (by decide) h

theorem digits_ne_nil (n : Nat) : digits n ≠ [] := Nat.toDigits_ne_nil

end Calculator.Text
