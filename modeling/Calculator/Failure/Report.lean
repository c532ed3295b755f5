import Calculator.Failure.Basic
import Calculator.Fault
import Calculator.Source.Excerpt
import Calculator.Text.Numeral

/-!
# Reports on failures

A failure is shown as a message of one line, which names the file and the line where it begins. At
run time a traceback stands before it, a line for each frame of the context, the outermost first. A
report is the message followed by an excerpt of the source.

The traceback pairs each frame with the place where the calculation stood *in* that frame: for the
innermost frame this is where the failure begins, for any other the place where the frame inside it
was entered. The place where the outermost frame was entered is not shown.

A place that is shown has to be known: without it there is no message, and without both ends of the
failure there is no report. A failure of the calculation of a source knows them all.
-/

namespace Calculator

/-- The file and the line of a place, counted from one. -/
def placeText : Option Position → Except Fault String
  | some position =>
    .ok ("File " ++ position.source.name ++ ", Line " ++ .ofList (Text.integer (position.line + 1)))
  | none => .error .unknownPlace

namespace Context

/-- The lines of a traceback, innermost frame first, given the place where the calculation stands
in the innermost frame. -/
def lines : Option Position → Context → Except Fault (List String)
  | _, [] => .ok []
  | place?, frame :: outer => do
    let place ← placeText place?
    let others ← lines frame.entry? outer
    return (place ++ ", " ++ frame.name ++ "\n") :: others

/-- A header and the lines of the frames, outermost first. -/
def traceback (place? : Option Position) (context : Context) : Except Fault String :=
  (context.lines place?).map fun lines ↦
    "Traceback (most recent call last):\n" ++ String.join lines.reverse

end Context

namespace Failure

/-- The traceback of a failure at run time; other failures have none. -/
def traceback? (failure : Failure) : Except Fault (Option String) :=
  match failure.cause with
  | .runtime _ context => (context.traceback failure.extent.start?).map some
  | _ => .ok none

/-- What is wrong, in which file and in which line. -/
def summary (failure : Failure) : Except Fault String :=
  (placeText failure.extent.start?).map fun place ↦
    failure.cause.title ++ ": " ++ failure.cause.details ++ " " ++ place

/-- The summary after the traceback, if there is one. -/
def message (failure : Failure) : Except Fault String := do
  let traceback? ← failure.traceback?
  let summary ← failure.summary
  return traceback?.getD "" ++ summary

/-- The message and the underlined source. -/
def report (failure : Failure) : Except Fault String := do
  let message ← failure.message
  match failure.extent.toSpan? with
  | some span => return message ++ "\n\n" ++ span.excerpt
  | none => .error .unknownPlace

end Failure

end Calculator
