import LangFile.Preview.Page
import LangFile.Style.Handles
import LangFile.Style.RichText

/-!
# The preview in the terminal

The same segments as rich text, each drawn in the style of its state over the default colour. A line
with nothing visible is drawn as one space.
-/

namespace LangFile.Preview

/-- The style of plain text in the panel. -/
def baseStyle : Style := .ofForeground (.rgb defaultColor)

/-- The pieces that draw a line. -/
def linePieces (segments : List Segment) : List (Text × Style) :=
  if segments.isEmpty then [(" ", .null)]
  else segments.map fun segment => (segment.1, baseStyle + .ofState segment.2)

/-- The pieces that draw the lines, line feeds between them. -/
def pieces : List (List Segment) → List (Text × Style)
  | [] => []
  | [line] => linePieces line
  | line :: rest => linePieces line ++ [(Text.ofString "\n", Style.null)] ++ pieces rest

/-- A text as the panel shows it. -/
def panel (t : Text) : RichText := .ofPieces (pieces (lines t))

end LangFile.Preview
