/-!
# Lines of an input

An input is a sequence of lines, each ended by a line feed, by a carriage return, or by the two in
that order. The last line may lack its end; what follows the last end is a line only if it holds
a character.
-/

namespace Calculator.Text

/-- The lines of an input, without their ends. `line` holds the current line, last character
first. -/
def linesFrom (line : List Char) : List Char → List (List Char)
  | [] => if line.isEmpty then [] else [line.reverse]
  | '\r' :: '\n' :: rest => line.reverse :: linesFrom [] rest
  | c :: rest =>
    if c = '\n' ∨ c = '\r' then line.reverse :: linesFrom [] rest else linesFrom (c :: line) rest

/-- The lines of an input, without their ends. -/
def lines (input : List Char) : List (List Char) := linesFrom [] input

example : lines ['a', '\n', '\r', '\n', 'b', '\r', 'c'] = [['a'], [], ['b'], ['c']] := by decide

end Calculator.Text
