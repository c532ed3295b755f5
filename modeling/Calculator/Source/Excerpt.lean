import Calculator.Source.Basic

/-!
# Underlined excerpts

A report quotes the lines that a span touches and underlines the columns it covers: each line of
the source is followed by a line of blanks and carets. The first quoted line is the one that holds
the span's start *index*; how many lines follow, and which columns are marked, is taken from the
lines and columns of its two ends. The two need not agree with the text, so

* an index before the text counts back from the end of the text,
* a line that the text does not have is quoted as an empty line,
* every quoted line gets at least one caret, also where no column is covered,
* an end before the start's line leaves nothing to quote.

Tabs are shown as single blanks, so that carets stand under the characters they mark.
-/

namespace Calculator

namespace Excerpt

/-- The characters before an index, which counts back from the end of the text if it is negative. -/
def before (text : List Char) (index : Int) : List Char :=
  text.take (if index < 0 then text.length + index else index).toNat

/-- The text from the beginning of the line that holds a given index, which is past the last
newline among the characters before the index. -/
def fromLineOf (text : List Char) (index : Int) : List Char :=
  let before := before text index
  text.drop (before.length - (before.reverse.takeWhile (· ≠ '\n')).length)

/-- The first line of a text, without its newline. -/
def firstLine (text : List Char) : List Char := text.takeWhile (· ≠ '\n')

/-- The text after its first line; nothing after the last one. -/
def afterFirstLine (text : List Char) : List Char := (text.dropWhile (· ≠ '\n')).drop 1

/-- Blanks up to a column, then carets up to another, and always at least one. -/
def marks (start stop : Int) : List Char :=
  List.replicate start.toNat ' ' ++ List.replicate (max (stop - start) 1).toNat '^'

/-- The quoted lines, a given number of them, each with the marks below it. The marks run from
`start` on the first line and up to `stop` on the last one; in between whole lines are marked. -/
def rows : Nat → (start stop : Int) → (text : List Char) → List (List Char × List Char)
  | 0, _, _, _ => []
  | count + 1, start, stop, text =>
    let line := firstLine text
    (line, marks start (if count = 0 then stop else line.length)) ::
      rows count 0 stop (afterFirstLine text)

/-- A tab is shown as a blank. -/
def blankTab (c : Char) : Char := if c = '\t' then ' ' else c

/-- Lines and marks one below the other. -/
def layout (rows : List (List Char × List Char)) : List Char :=
  ((List.intercalate ['\n'] (rows.flatMap fun row ↦ [row.1, row.2])).map blankTab)

end Excerpt

/-- The lines that a span touches, underlined. -/
def Span.excerpt (span : Span) : String :=
  let count := (span.stop.line - span.start.line + 1).toNat
  let text := Excerpt.fromLineOf span.start.source.text.toList span.start.index
  .ofList (Excerpt.layout (Excerpt.rows count span.start.column span.stop.column text))

end Calculator
