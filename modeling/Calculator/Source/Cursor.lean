import Calculator.Source.Basic

/-!
# Reading a source character by character

A `Cursor` is a position together with the characters that are still to be read, so that the
current character is the head of a list and reading ends because the list gets shorter. Advancing
at the end is allowed: the position moves on and there is still nothing to read.
-/

namespace Calculator

/-- A place in a source and what is left of the text from there on. -/
structure Cursor where
  position : Position
  rest : List Char
deriving DecidableEq

/-- The cursor at the beginning of a source. -/
def Source.cursor (source : Source) : Cursor := ⟨.origin source, source.text.toList⟩

namespace Cursor

/-- The character under the cursor, if the text has not ended. -/
def current? (cursor : Cursor) : Option Char := cursor.rest.head?

/-- The cursor one character on. -/
def advance (cursor : Cursor) : Cursor :=
  ⟨cursor.position.advance cursor.current?, cursor.rest.tail⟩

/-- The cursor a number of characters on. -/
def advanceBy : Nat → Cursor → Cursor
  | 0, cursor => cursor
  | n + 1, cursor => advanceBy n cursor.advance

@[simp] theorem rest_advance (cursor : Cursor) : cursor.advance.rest = cursor.rest.tail := rfl

@[simp] theorem rest_advanceBy (n : Nat) (cursor : Cursor) :
    (cursor.advanceBy n).rest = cursor.rest.drop n := by
  induction n generalizing cursor with
  | zero => simp [advanceBy]
  | succ n ih => simp [advanceBy, ih]

theorem advanceBy_add (m n : Nat) (cursor : Cursor) :
    cursor.advanceBy (m + n) = (cursor.advanceBy m).advanceBy n := by
  induction m generalizing cursor with
  | zero => rw [Nat.zero_add, advanceBy]
  | succ m ih => rw [Nat.succ_add, advanceBy, advanceBy, ih]

@[simp] theorem index_position_advanceBy (n : Nat) (cursor : Cursor) :
    (cursor.advanceBy n).position.index = cursor.position.index + n := by
  induction n generalizing cursor with
  | zero => simp [advanceBy]
  | succ n ih => simp [advanceBy, ih, advance]; omega

end Cursor

end Calculator
