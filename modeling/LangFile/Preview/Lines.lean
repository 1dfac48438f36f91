import LangFile.Format.Run

/-!
# Preview lines

The preview shows each line of a text by itself: formatting begins anew on every line. Lines end at
a line feed, and a carriage return right before it belongs to the line end.
-/

namespace LangFile

namespace Preview

/-- A piece of visible text and its state. -/
abbrev Segment := Text × FormattingState

/-- The line without a carriage return at its end. -/
def dropCarriageReturn (line : Text) : Text :=
  if line.getLast? = some (.scalar '\r') then line.dropLast else line

/-- The lines of a text; the last one is not followed by a line end. -/
def splitLines (t : Text) : List Text :=
  let ls := Text.lines t
  ls.dropLast.map dropCarriageReturn ++ ls.getLast?.toList

/-- The visible segments of a line. -/
def segments (line : Text) : List Segment :=
  (Run.runs line true).map fun run => (run.textIn line 0, run.state)

/-- The visible segments of every line of a text. -/
def lines (t : Text) : List (List Segment) := (splitLines t).map segments

end Preview

end LangFile
