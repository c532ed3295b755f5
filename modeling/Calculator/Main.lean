import Calculator.Session

/-!
# The command

The command holds a session on the standard input and output. Every line is answered as soon as it
is there. A crash is explained on the standard error and makes the command fail.
-/

namespace Calculator.Session

/-- Goes on with a session, given the lines that have been read and not been answered yet. -/
partial def converse (input output : IO.FS.Stream) (lines : List (List Char)) : IO UInt32 := do
  output.putStr prompt
  output.flush
  let lines ← if lines.isEmpty then Text.lines <$> String.toList <$> input.getLine else pure lines
  match lines with
  | [] =>
    output.putStr "\n"
    return 0
  | line :: rest =>
    match reply false line with
    | .leave => return 0
    | .shown text =>
      output.putStr text
      converse input output rest
    | .crashed text fault =>
      output.putStr text
      IO.eprintln ("error: " ++ fault.message)
      return 1

end Calculator.Session

/-- The session on the standard streams. -/
def main : IO UInt32 := do
  Calculator.Session.converse (← IO.getStdin) (← IO.getStdout) []
