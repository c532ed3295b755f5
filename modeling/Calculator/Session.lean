import Calculator.Calculation
import Calculator.Text.Blank
import Calculator.Text.Lines

/-!
# Sessions

A session prompts for lines and answers each by itself: nothing is remembered from one line to the
next. A line without its blank ends is an expression to calculate, or the command to leave, or
nothing. The number is shown after an arrow, a failure as a report in red. How a terminal is told to
write in red is not for the session to say: that is its `Style`.

A session ends when the command to leave is read, when the input ends, or when a calculation is
given up. In the last case the session crashes, with what was shown before the crash in place.
-/

namespace Calculator

namespace Session

/-- What is shown before a line is read. -/
def prompt : String := "abacus > "

/-- The line that ends the session. -/
def leave : List Char := ['!', 'e', 'x', 'i', 't']

/-- The name of the source that a line is. -/
def sourceName : String := "<stdin>"

/-- What tells a terminal to write in red, and to write in its own way again. -/
structure Style where
  red : String
  plain : String
deriving DecidableEq

/-- The codes of ANSI terminals. -/
def Style.ansi : Style := ⟨"\x1b[31m", "\x1b[0m"⟩

/-- A report in red letters. -/
def Style.inRed (style : Style) (report : String) : String := style.red ++ report ++ style.plain

/-- What becomes of a line. -/
inductive Reply where
  /-- The session ends. -/
  | leave
  /-- The session goes on after showing a text. -/
  | shown (text : String)
  /-- The session crashes after showing a text. -/
  | crashed (text : String) (fault : Fault)
deriving DecidableEq

/-- The answer to a calculation. -/
def answer (calculation : Calculation) (style : Style := .ansi) : Except Fault String :=
  match calculation.result with
  | .ok number => number.text.map fun text ↦ "fetch < " ++ text ++ "\n"
  | .error (.failure failure) => failure.report.map fun report ↦ style.inRed report ++ "\n"
  | .error (.fault fault) => .error fault

/-- What becomes of a line. If the session is traced, what the stages of the calculation found is
shown before the answer. -/
def reply (traced : Bool) (line : List Char) (style : Style := .ansi) : Reply :=
  let text := Text.strip line
  if text = leave then .leave
  else if text = [] then .shown ""
  else
    let calculation := Source.calculate ⟨sourceName, .ofList text⟩
    let before := if traced then String.join calculation.trace else ""
    match answer calculation style with
    | .ok text => .shown (before ++ text)
    | .error fault => .crashed before fault

/-- How a session ends. -/
inductive Ending where
  /-- The input ended. -/
  | exhausted
  /-- The command to leave was read. -/
  | left
  /-- A calculation was given up. -/
  | crashed (fault : Fault)
deriving DecidableEq

/-- What a session shows, and how it ends. -/
structure Transcript where
  shown : String
  ending : Ending
deriving DecidableEq

/-- The session that shows a text and goes on. -/
def Transcript.after (text : String) (transcript : Transcript) : Transcript :=
  { transcript with shown := text ++ transcript.shown }

/-- The session on the lines of an input. At the end of the input the line of the prompt is
ended. -/
def onLines (traced : Bool) (lines : List (List Char)) (style : Style := .ansi) : Transcript :=
  match lines with
  | [] => ⟨prompt ++ "\n", .exhausted⟩
  | line :: rest =>
    match reply traced line style with
    | .leave => ⟨prompt, .left⟩
    | .shown text => (onLines traced rest style).after (prompt ++ text)
    | .crashed text fault => ⟨prompt ++ text, .crashed fault⟩

/-- The session on an input. -/
def run (traced : Bool) (input : List Char) (style : Style := .ansi) : Transcript :=
  onLines traced (Text.lines input) style

end Session

end Calculator
