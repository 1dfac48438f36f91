import LangFile.Editor.Coloring
import LangFile.Editor.Overlay
import LangFile.Editor.Wrap

/-!
# The editor

A buffer with a selection, a history, a scroll position, and what is laid over the text. The styles
of a line are kept once they are computed: an edit marks them stale, drawing the screen drops stale
ones, and a new overlay drops all.
-/

namespace LangFile

open Editor

/-- What an editor tells the outside. -/
inductive EditorMessage
  | textChanged
  | selectionChanged
  | scrolled (top : Nat)
  /-- Completion is wanted at a place, behind this part of its line. -/
  | completionRequested (place : Cursor) (before : Text)
deriving DecidableEq

/-- An editor. `anchor` is the other end of the selection, if there is one; `undo` and `redo` hold
former buffers, the latest first. -/
structure Editor where
  document : Option Text := none
  column : Int := 0
  readOnly : Bool := false
  buffer : Buffer := {}
  anchor : Option Cursor := none
  status : Text := []
  modified : Bool := false
  undo : List Buffer := []
  redo : List Buffer := []
  top : Nat := 0
  version : Nat := 0
  lineStyles : List (Int × List Style) := []
  stale : Bool := false
  decorations : Overlay Style := []
  findings : List Finding := []
  marks : Overlay Finding := []
  width : Nat := 40
  height : Nat := 6
  focused : Bool := false

namespace Editor

/-- A new editor on a text. -/
def ofText (t : Text) : Editor := { buffer := .ofText t }

/-- A new editor on a document. -/
def ofDocument (d : Document) (column : Int) : Editor :=
  { ofText d.text with document := some d.path, column }

/-- The text. -/
def content (e : Editor) : Text := e.buffer.text

/-- The cursor. -/
def cursor (e : Editor) : Cursor := e.buffer.cursor

/-- The selection, if it is not empty. -/
def selection? (e : Editor) : Option Selection :=
  match e.anchor with
  | none => none
  | some a =>
    if a = e.cursor then none
    else if a.le e.cursor then some ⟨a, e.cursor⟩
    else some ⟨e.cursor, a⟩

/-- The selected text. -/
def selectedText (e : Editor) : Except Fault Text :=
  match e.selection? with
  | some s => e.buffer.textBetween s
  | none => .ok []

/-- The rows of text that fit on the screen above the status line; at least one. -/
def visibleHeight (e : Editor) : Nat := max 1 (e.height - 1)

/-- The width of the line numbers. -/
def numberWidth (e : Editor) : Nat := max 3 (Text.ofNat e.buffer.lines.length).length

/-- The columns left for the text beside the line numbers. -/
def textWidth (e : Editor) : Nat := e.width - e.numberWidth - 1

/-! ## History -/

/-- The most former buffers that are kept for undoing. -/
def historyLimit : Nat := 200

/-- The computed styles no longer fit the text. -/
def touch (e : Editor) : Editor := { e with stale := true, version := e.version + 1 }

/-- Remembers the buffer before an edit; what was undone can no longer be redone. -/
def saveHistory (e : Editor) : Editor :=
  { e with undo := (e.buffer :: e.undo).take historyLimit, redo := [], modified := true }.touch

/-- Goes back to the buffer before the last edit. -/
def undoEdit (e : Editor) : Editor :=
  match e.undo with
  | [] => { e with status := "nothing to undo" }
  | b :: rest =>
    { e with
      redo := e.buffer :: e.redo, undo := rest, buffer := b, anchor := none
      status := "undone" }.touch

/-- Goes forward again to the buffer after an undone edit. -/
def redoEdit (e : Editor) : Editor :=
  match e.redo with
  | [] => { e with status := "nothing to redo" }
  | b :: rest =>
    { e with
      undo := e.buffer :: e.undo, redo := rest, buffer := b, anchor := none
      status := "redone" }.touch

/-! ## Edits -/

/-- The editor after an edit that leads to this buffer: nothing is selected any more. -/
def edited (e : Editor) (b : Buffer) : Editor := { e.saveHistory with buffer := b, anchor := none }

/-- Takes out the selected text; nothing without a selection. -/
def deleteSelection? (e : Editor) : Except Fault (Option Editor) :=
  match e.selection? with
  | none => .ok none
  | some s => (e.buffer.removeBetween s).map fun b => some (e.edited b)

/-- Makes room for new text: takes out the selected text, or remembers the buffer. -/
def prepareInsertion (e : Editor) : Except Fault Editor :=
  e.deleteSelection?.map fun r => r.getD (e.edited e.buffer)

/-- Puts in a text without line feeds at the cursor, in place of the selected text. -/
def insert (e : Editor) (t : Text) : Except Fault Editor := do
  let e ← e.prepareInsertion
  return { e with buffer := ← e.buffer.insert t }

/-- Ends the line at the cursor. -/
def breakLine (e : Editor) : Except Fault Editor := do
  let e ← e.prepareInsertion
  return { e with buffer := ← e.buffer.breakLine }

/-- Takes out the selected text, or else what `change` takes out, if anything. -/
def deleteOr (e : Editor) (change : Buffer → Except Fault (Option Buffer)) :
    Except Fault Editor := do
  match ← e.deleteSelection? with
  | some e => return e
  | none =>
    match ← change e.buffer with
    | some b => return e.edited b
    | none => return { e with anchor := none }

/-- Replaces the columns of a row from `start` to `stop`. -/
def replaceColumns (e : Editor) (row start stop : Int) (t : Text) : Except Fault Editor :=
  if e.readOnly then .ok { e with status := "[readonly]" }
  else (e.buffer.replaceColumns row start stop t).map e.edited

/-- The editor with another text, unmodified, at its start. The history stays. -/
def loadText (e : Editor) (t : Text) : Editor :=
  { e with buffer := .ofText t, anchor := none, top := 0, modified := false }.touch

/-! ## Scrolling -/

/-- Scrolls to a line, or to the nearest one there is. -/
def scrollTo (e : Editor) (line : Int) : Editor × List EditorMessage :=
  let top := (max 0 (min line e.buffer.lastRow)).toNat
  if top = e.top then (e, []) else ({ e with top }, [.scrolled top])

/-- Scrolls by some lines, up for a negative number. -/
def scrollBy (e : Editor) (delta : Int) : Editor × List EditorMessage :=
  e.scrollTo (e.top + delta)

/-- How many of the rows with these heights must scroll off so that the others leave a row free. -/
def scrollOff (visible : Nat) : List Nat → Nat
  | [] => 0
  | h :: hs => if visible ≤ (h :: hs).sum then scrollOff visible hs + 1 else 0

/-- Scrolls as little as needed to show the cursor's line, which is in the text, on a screen with
`avail` columns for text. -/
def showCursor (e : Editor) (avail : Nat) : Editor :=
  let row := e.cursor.row.toNat
  let top := min e.top row
  let heights := ((e.buffer.lines.take row).drop top).map (Segment.rows avail)
  { e with top := top + scrollOff e.visibleHeight heights }

/-! ## Overlays -/

/-- The editor with these spans drawn in their styles, and no others. -/
def showDecorations (e : Editor) (spans : StyledSpans) : Editor :=
  let flat := spans.flatMap fun s => s.2.map fun span => (span, s.1)
  { e with decorations := .ofSpans e.buffer flat, lineStyles := [] }

/-- The editor with these findings, and no others. -/
def setFindings (e : Editor) (findings : List Finding) : Editor :=
  { e with
    findings
    marks := .ofSpans e.buffer (findings.map fun f => (f.span, f))
    lineStyles := [] }

/-- The first finding at the cursor. -/
def findingAtCursor? (e : Editor) : Option Finding :=
  let ⟨row, column⟩ := e.cursor
  ((e.marks.row row).find? fun p => p.start ≤ column && column ≤ p.stop).map (·.value)

/-- What the status line says. -/
def statusText (e : Editor) : Text :=
  if e.status.isEmpty then (e.findingAtCursor?.map (·.message)).getD [] else e.status

/-- The styles of a row's characters with its overlays. -/
def computeStyles (e : Editor) (row : Int) : Except Fault (List Style) := do
  let line ← e.buffer.line row
  let decorated ← (e.decorations.row row).foldlM (Piece.lay id) (Coloring.styles line)
  (e.marks.row row).foldlM (Piece.lay findingStyle) decorated

/-- The styles of a row's characters, kept from an earlier time if they were computed before. -/
def stylesOf (e : Editor) (row : Int) : Except Fault (Editor × List Style) :=
  match e.lineStyles.find? fun p => p.1 = row with
  | some p => .ok (e, p.2)
  | none => (e.computeStyles row).map fun styles =>
    ({ e with lineStyles := (row, styles) :: e.lineStyles }, styles)

/-- The editor without styles that no longer fit the text. -/
def dropStaleStyles (e : Editor) : Editor :=
  if e.stale then { e with lineStyles := [], stale := false } else e

end Editor

end LangFile
