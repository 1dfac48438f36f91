import LangFile.Decoration
import LangFile.Document
import LangFile.Offset
import LangFile.Text.Blank

/-!
# Buffers

The editor keeps its text line by line. A place is a row and a column. Every change below is a pure
function on lines and cursor; the editor adds history and messages.

## Places outside the text

A cursor may be put anywhere and stays there until the next key. Rows and columns are signed offsets
(`LangFile.Offset`): what needs the line of a row that is not there fails with a fault, and a column
beyond the end of its line stands for the end.
-/

namespace LangFile.Editor

/-- A place in a buffer: row and column count from zero. -/
structure Cursor where
  row : Int
  column : Int
deriving DecidableEq

namespace Cursor

/-- The first place is not behind the second. -/
def le (a b : Cursor) : Bool := a.row < b.row || a.row = b.row && a.column ≤ b.column

end Cursor

/-- Why the editor cannot do what it is asked for. -/
inductive Fault
  /-- The line of a row is needed that is not there. -/
  | noSuchRow
  /-- Something is laid over a column that is not there. -/
  | noSuchColumn
deriving DecidableEq

/-- From one place up to, not including, another. -/
structure Selection where
  first : Cursor
  last : Cursor
deriving DecidableEq

/-- Lines and a cursor. -/
structure Buffer where
  lines : List Text := [[]]
  cursor : Cursor := ⟨0, 0⟩
deriving DecidableEq

namespace Buffer

/-- The buffer that holds a text, with the cursor at its start. -/
def ofText (t : Text) : Buffer := { lines := Text.lines t }

/-- The text of the buffer. -/
def text (b : Buffer) : Text := Text.unlines b.lines

/-- The line of a row. -/
def line (b : Buffer) (row : Int) : Except Fault Text :=
  match Offset.get? b.lines row with
  | some l => .ok l
  | none => .error .noSuchRow

/-- The line with the cursor. -/
def currentLine (b : Buffer) : Except Fault Text := b.line b.cursor.row

/-- The last row. -/
def lastRow (b : Buffer) : Nat := b.lines.length - 1

/-- The offsets behind the line ends of some lines, the first of which starts at `pos`. -/
def startsAfter (pos : Nat) : List Text → List Nat
  | [] => []
  | l :: ls => (pos + l.length + 1) :: startsAfter (pos + l.length + 1) ls

/-- The offsets at which the lines start in the text of the buffer. -/
def lineStarts (b : Buffer) : List Nat := 0 :: startsAfter 0 b.lines.dropLast

/-- The nearest place inside the buffer. -/
def clamp (b : Buffer) : Except Fault Buffer := do
  let row := max 0 (min b.cursor.row b.lastRow)
  let l ← b.line row
  return { b with cursor := ⟨row, max 0 (min b.cursor.column l.length)⟩ }

/-- The buffer with the cursor elsewhere. -/
def moveTo (b : Buffer) (row column : Int) : Buffer := { b with cursor := ⟨row, column⟩ }

/-- The buffer with another line at a row. -/
def setLine (b : Buffer) (row : Int) (l : Text) : Buffer :=
  { b with lines := Offset.set b.lines row l }

/-- The text from one place to another. -/
def textBetween (b : Buffer) (s : Selection) : Except Fault Text := do
  let first ← b.line s.first.row
  if s.first.row = s.last.row then
    return Offset.between first s.first.column s.last.column
  else
    let last ← b.line s.last.row
    return Text.unlines <|
      [Offset.after first s.first.column] ++
      Offset.between b.lines (s.first.row + 1) s.last.row ++
      [Offset.before last s.last.column]

/-- The buffer without the text from one place to another, and the cursor there. -/
def removeBetween (b : Buffer) (s : Selection) : Except Fault Buffer := do
  let first ← b.line s.first.row
  let last ← b.line s.last.row
  let joined := Offset.before first s.first.column ++ Offset.after last s.last.column
  return {
    lines := Offset.replace b.lines s.first.row (s.last.row + 1) [joined]
    cursor := s.first }

/-- The buffer with the columns of a row from `start` to `stop` replaced by a text, and the cursor
behind it. -/
def replaceColumns (b : Buffer) (row start stop : Int) (t : Text) : Except Fault Buffer := do
  let l ← b.line row
  return (b.setLine row (Offset.before l start ++ t ++ Offset.after l stop)).moveTo row
    (start + t.length)

/-- The buffer with a text without line feeds put in at the cursor. -/
def insert (b : Buffer) (t : Text) : Except Fault Buffer :=
  b.replaceColumns b.cursor.row b.cursor.column b.cursor.column t

/-- The lines with those of the rows `row` and `row + 1` joined to one. -/
def joinLines (b : Buffer) (row : Int) : Except Fault (List Text) := do
  let l ← b.line row
  let next ← b.line (row + 1)
  return Offset.erase (Offset.set b.lines row (l ++ next)) (row + 1)

/-- The buffer without the character before the cursor; nothing at the start of the text. -/
def backspace? (b : Buffer) : Except Fault (Option Buffer) := do
  let ⟨row, c⟩ := b.cursor
  if 0 < c then
    let l ← b.currentLine
    return some ((b.setLine row (Offset.before l (c - 1) ++ Offset.after l c)).moveTo row (c - 1))
  else if 0 < row then
    let above ← b.line (row - 1)
    let lines ← b.joinLines (row - 1)
    return some { lines, cursor := ⟨row - 1, above.length⟩ }
  else return none

/-- The buffer without the character at the cursor; nothing at the end of the text. -/
def delete? (b : Buffer) : Except Fault (Option Buffer) := do
  let ⟨row, c⟩ := b.cursor
  let l ← b.currentLine
  if c < l.length then
    return some (b.setLine row (Offset.before l c ++ Offset.after l (c + 1)))
  else if row < b.lastRow then
    let lines ← b.joinLines row
    return some { b with lines }
  else return none

/-- How far the line behind a line end at a column is indented: like the line that is ended, if there
is anything on it, and four columns more behind an opening brace or bracket. -/
def newIndent (l : Text) (column : Int) : Nat :=
  let before := Text.trimRight (Offset.before l column)
  (if (Text.trim l).isEmpty then 0 else Text.indentation l) +
    (if Text.endsWith before "\x7b" || Text.endsWith before "[" then 4 else 0)

/-- The buffer with the line of the cursor ended at the cursor. White space behind the cursor gives
way to the indentation of the new line. -/
def breakLine (b : Buffer) : Except Fault Buffer := do
  let ⟨row, c⟩ := b.cursor
  let l ← b.currentLine
  let indent := newIndent l c
  let new := List.replicate indent (.scalar ' ') ++ Text.trimLeft (Offset.after l c)
  return {
    lines := Offset.insert (Offset.set b.lines row (Offset.before l c)) (row + 1) new
    cursor := ⟨row + 1, indent⟩ }

theorem line_natCast (b : Buffer) {row : Nat} (h : row < b.lines.length) :
    b.line row = .ok b.lines[row] := by
  simp [line, Offset.get?_natCast, h]

/-- In a buffer with lines there is a nearest place: a row that is there, and a column that does not
pass the end of its line. -/
theorem clamp_eq_ok (b : Buffer) (h : b.lines ≠ []) :
    ∃ (row column : Nat) (hr : row < b.lines.length), column ≤ b.lines[row].length ∧
      b.clamp = .ok (b.moveTo row column) := by
  have hn : 0 < b.lines.length := List.length_pos_iff.2 h
  obtain ⟨row, hrow⟩ : ∃ row : Nat, max 0 (min b.cursor.row (b.lastRow : Int)) = row :=
    ⟨(max 0 (min b.cursor.row (b.lastRow : Int))).toNat, by omega⟩
  have hr : row < b.lines.length := by
    unfold lastRow at hrow
    omega
  obtain ⟨column, hcolumn⟩ :
      ∃ column : Nat, max 0 (min b.cursor.column (b.lines[row].length : Int)) = column :=
    ⟨(max 0 (min b.cursor.column (b.lines[row].length : Int))).toNat, by omega⟩
  refine ⟨row, column, hr, by omega, ?_⟩
  unfold clamp
  simp only [hrow, line_natCast b hr]
  change Except.ok { b with cursor := ⟨row, max 0 (min b.cursor.column _)⟩ } = _
  rw [hcolumn]
  rfl

end Buffer

/-- Ways to move the cursor. -/
inductive Motion
  | left | right | up | down | lineStart | lineEnd | pageUp | pageDown
deriving DecidableEq

/-- Where a motion leads, where a page has so many rows; the place may lie outside the text. The way
to the start of a line leads to its first character that is not blank, and from there to column
zero. -/
def Buffer.moveFreely (b : Buffer) (page : Nat) (m : Motion) : Except Fault Buffer := do
  let ⟨row, c⟩ := b.cursor
  match m with
  | .left =>
    if 0 < c then return b.moveTo row (c - 1)
    else if 0 < row then
      let above ← b.line (row - 1)
      return b.moveTo (row - 1) above.length
    else return b
  | .right =>
    let l ← b.currentLine
    if c < l.length then return b.moveTo row (c + 1)
    else if row < b.lastRow then return b.moveTo (row + 1) 0
    else return b
  | .up => return b.moveTo (row - 1) c
  | .down => return b.moveTo (row + 1) c
  | .lineStart =>
    let l ← b.currentLine
    let indent := Text.indentation l
    return b.moveTo row (if c = indent then 0 else indent)
  | .lineEnd =>
    let l ← b.currentLine
    return b.moveTo row l.length
  | .pageUp => return b.moveTo (row - page) c
  | .pageDown => return b.moveTo (row + page) c

/-- The buffer with the cursor moved, and kept inside the text. -/
def Buffer.move (b : Buffer) (page : Nat) (m : Motion) : Except Fault Buffer := do
  (← b.moveFreely page m).clamp

end LangFile.Editor
