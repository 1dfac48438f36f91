import LangFile.Editor.Basic
import LangFile.Style.RichText

/-!
# Drawing the editor

The screen shows the wrapped lines from the scroll position on, each row behind its line number or a
blank of that width, then tildes, and at the bottom the status line. Characters of one style are
drawn as one piece; the cursor is a piece of its own.
-/

namespace LangFile

namespace Editor

/-- The style of selected text. -/
def selectionStyle : Style := { background := some (.palette .darkBlue) }

/-- The style of the cursor. -/
def cursorStyle : Style := { reverse := true }

/-- A character as it is drawn. -/
structure Cell where
  char : CodePoint
  style : Style
  isCursor : Bool
deriving DecidableEq

/-- The cells grouped to pieces of one style, the cursor by itself. -/
def groupCells : List Cell → List (Text × Style)
  | [] => []
  | c :: cells =>
    if c.isCursor then ([c.char], c.style + cursorStyle) :: groupCells cells
    else
      let same (d : Cell) : Bool := !d.isCursor && d.style = c.style
      let rest := groupCells cells
      match cells, rest with
      | d :: _, (t, s) :: pieces =>
        if same d then (c.char :: t, s) :: pieces else ([c.char], c.style) :: rest
      | _, _ => ([c.char], c.style) :: rest

/-- The selected piece of a row of `n` characters, if the selection has a part in the row. -/
def selectedPiece? (s : Selection) (row n : Nat) : Option (Piece Style) :=
  if s.first.row ≤ row && row ≤ s.last.row then
    some {
      start := if row = s.first.row then s.first.column else 0
      stop := if row = s.last.row then s.last.column else n
      value := selectionStyle }
  else none

/-- The styles of a row's characters with the selection laid over them. -/
def withSelection (e : Editor) (row : Nat) (styles : List Style) : Except Fault (List Style) :=
  match e.selection?.bind fun s => selectedPiece? s row styles.length with
  | some piece => piece.lay id styles
  | none => .ok styles

/-- The cells of a line, given the styles of its characters. -/
def cells (e : Editor) (row : Nat) (line : Text) (styles : List Style) : List Cell :=
  (line.zip styles).mapIdx fun i p =>
    { char := p.1
      style := p.2
      isCursor := e.focused && row = e.cursor.row && i = e.cursor.column }

/-- Text pushed to the right by blanks. -/
def padLeft (width : Nat) (t : Text) : Text := List.replicate (width - t.length) (.scalar ' ') ++ t

/-- Blanks. -/
def blanks (n : Nat) : Text := List.replicate n (.scalar ' ')

/-- Pieces of a screen row. -/
abbrev Row := List (Text × Style)

/-- What stands before the text of a row: the line number before the first row of a line. -/
def gutter (e : Editor) (row : Nat) (isFirst : Bool) : Text × Style :=
  if isFirst then
    (padLeft e.numberWidth (Text.ofNat (row + 1)) ++ " ",
      { foreground := some (.palette .cyan), dim := true })
  else (blanks (e.numberWidth + 1), .null)

/-- The screen rows of a line. -/
def lineRows (e : Editor) (avail row : Nat) (line : Text) (styles : List Style) : List Row :=
  let cells := e.cells row line styles
  let segments := Segment.wrap avail line
  let cursorBehind := e.focused && row = e.cursor.row && line.length ≤ e.cursor.column
  segments.mapIdx fun i s =>
    [e.gutter row (i = 0)] ++ groupCells ((cells.take s.stop).drop s.start) ++
    (if cursorBehind && i + 1 = segments.length then [(Text.ofString " ", cursorStyle)] else []) ++
    [(Text.ofString "\n", Style.null)]

/-- Draws the lines from `row` on, of which there are `lines` more, until `room` rows are filled. -/
def drawLines (avail : Nat) : (lines row room : Nat) → Editor → Except Fault (Editor × List Row)
  | 0, _, _, e => .ok (e, [])
  | lines + 1, row, room, e => do
    if room = 0 then return (e, [])
    else
      let line ← e.buffer.line row
      let (e, styles) ← e.stylesOf row
      let rows := (e.lineRows avail row line (← e.withSelection row styles)).take room
      let (e, rest) ← drawLines avail lines (row + 1) (room - rows.length) e
      return (e, rows ++ rest)

/-- A row below the text. -/
def tildeRow (e : Editor) : Row :=
  [(padLeft e.numberWidth "~" ++ " \n", { foreground := some (.palette .blue), dim := true })]

/-- The name shown for the document. -/
def title (e : Editor) : Text :=
  match e.document with
  | some path => (Path.ofText path).name
  | none => "[new]"

/-- The pieces of the status line. -/
def statusLine (e : Editor) : Row :=
  let onColor (bg : PaletteColor) : Style :=
    { foreground := some (.palette .white), background := some (.palette bg), bold := true }
  let label := " " ++ e.title ++ (if e.modified then Text.ofString " +" else []) ++ " "
  let readOnly : Row := if e.readOnly then [(Text.ofString " RO ", onColor .grey37)] else []
  let errors := (e.findings.filter fun f => f.severity = .error).length
  let counts := " E" ++ Text.ofNat errors ++ " W" ++ Text.ofNat (e.findings.length - errors) ++ " "
  let countStyle : Style :=
    if errors = 0 then { dim := true } else { foreground := some (.palette .red), bold := true }
  let status := e.statusText
  let place := " Ln " ++ Text.ofInt (e.cursor.row + 1) ++ "/" ++ Text.ofNat e.buffer.lines.length ++
    ", Col " ++ Text.ofInt (e.cursor.column + 1) ++ " "
  let used := label.length + (if e.readOnly then 4 else 0) + counts.length + status.length +
    place.length + 2
  [(label, onColor .darkGreen)] ++ readOnly ++
    [(counts, countStyle), ("  " ++ status, .null), (blanks (e.width - used), .null),
      (place, { bold := true })]

/-- Draws the screen. -/
def render (e : Editor) : Except Fault (Editor × RichText) := do
  if e.height < 2 || e.width < 10 then return (e, .ofText "(too small)")
  else
    let fresh := e.dropStaleStyles
    let top := min fresh.top fresh.buffer.lastRow
    let e := { fresh with top }
    let room := e.height - 1
    let avail := max 1 e.textWidth
    let (e, rows) ← drawLines avail (e.buffer.lines.length - top) top room e
    let tildes := List.replicate (room - rows.length) e.tildeRow
    return (e, .ofPieces ((rows ++ tildes).flatten ++ e.statusLine))

end Editor

end LangFile
