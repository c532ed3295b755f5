/-!
# Sources, positions and spans

A `Source` is a named text. A `Position` is a place in it, given by its index and by its line and
column, all counted from zero in characters. Nothing ties the three numbers together: a caller may
ask for any place, also one before the text or past its end, and `Position.advance` only keeps them
in step from there on.

Two kinds of stretch are kept apart:

* a `Span` has both of its ends, and can be quoted;
* an `Extent` may lack either end. Tokens, expressions, numbers and failures have one: what was read
  from a source has both ends, but what was computed or put together by hand stands nowhere until it
  is given a place.

Ends are exclusive: a stretch that covers one character ends one index after it begins.
-/

namespace Calculator

/-- A named text: what is read, and what a report quotes. -/
structure Source where
  /-- The name under which reports show the text, such as a file name. -/
  name : String
  text : String
deriving DecidableEq

/-- A place in a source, counted from zero in characters. -/
structure Position where
  source : Source
  index : Int
  line : Int
  column : Int
deriving DecidableEq

namespace Position

/-- The place before the first character. -/
def origin (source : Source) : Position := ⟨source, 0, 0, 0⟩

/-- The place one character on, given the character that is left behind. Only a newline starts a
new line; leaving no character at all, past the end of the text, still moves one column on. -/
def advance (position : Position) (left : Option Char) : Position :=
  if left = some '\n' then
    { position with index := position.index + 1, line := position.line + 1, column := 0 }
  else
    { position with index := position.index + 1, column := position.column + 1 }

@[simp] theorem source_advance (p : Position) (left : Option Char) :
    (p.advance left).source = p.source := by
  unfold advance; split <;> rfl

@[simp] theorem index_advance (p : Position) (left : Option Char) :
    (p.advance left).index = p.index + 1 := by
  unfold advance; split <;> rfl

end Position

/-- A stretch of a source with both ends known. -/
structure Span where
  start : Position
  stop : Position
deriving DecidableEq

/-- The stretch of the single character at a position. The character itself is not consulted, so
the end stays on the same line. -/
def Span.single (position : Position) : Span := ⟨position, position.advance none⟩

/-- A stretch of a source of which either end may be unknown. -/
structure Extent where
  start? : Option Position := none
  stop? : Option Position := none
deriving DecidableEq

/-- The extent that has both ends of a span. -/
def Span.toExtent (span : Span) : Extent := ⟨some span.start, some span.stop⟩

/-- The extent between two ends that may be missing: a start without a stop covers the one
character that stands there. -/
def Extent.ofEnds (start? stop? : Option Position) : Extent :=
  ⟨start?, stop? <|> start?.map fun start ↦ (Span.single start).stop⟩

/-- The span between the two ends, if both are known. -/
def Extent.toSpan? (extent : Extent) : Option Span :=
  match extent.start?, extent.stop? with
  | some start, some stop => some ⟨start, stop⟩
  | _, _ => none

/-- The place of an index on the first line of a source. -/
def Source.place (source : Source) (index : Int) : Position := ⟨source, index, 0, index⟩

/-- The stretch between two indices on the first line of a source. -/
def Source.stretch (source : Source) (range : Int × Int) : Extent :=
  ⟨some (source.place range.1), some (source.place range.2)⟩

/-- Both ends are known. -/
def Extent.IsKnown (extent : Extent) : Prop := ∃ span : Span, extent = span.toExtent

@[simp] theorem Span.toSpan?_toExtent (span : Span) : span.toExtent.toSpan? = some span := rfl

end Calculator
