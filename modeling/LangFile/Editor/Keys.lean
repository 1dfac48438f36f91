import LangFile.Editor.Basic
import LangFile.Text.Printable

/-!
# Keys

What the editor does with a key, and what it tells the outside: that its text or its selection
changed, that it scrolled, and that completion is wanted behind two ampersands.
-/

namespace LangFile

open Editor

/-- A key, as far as the editor knows it. -/
inductive EditorKey
  /-- Moves the cursor, and the end of the selection with it if `select` holds. -/
  | move (m : Motion) (select : Bool)
  | escape
  | selectAll
  | undo
  | redo
  | backspace
  | delete
  | enter
  | tab
  | other
deriving DecidableEq

namespace EditorKey

/-- The motions by the name of their key. -/
def motions : List (String × Motion) :=
  [("left", .left), ("right", .right), ("up", .up), ("down", .down), ("home", .lineStart),
   ("end", .lineEnd), ("pageup", .pageUp), ("pagedown", .pageDown)]

/-- The keys that are no motions, by name. -/
def commands : List (String × EditorKey) :=
  [("escape", escape), ("ctrl+a", selectAll), ("ctrl+z", undo), ("ctrl+y", redo),
   ("backspace", backspace), ("delete", delete), ("enter", enter), ("tab", tab)]

/-- The motion of a key. -/
def motion? (name : Text) : Option Motion :=
  motions.findSome? fun p => if Text.ofString p.1 = name then some p.2 else none

/-- The key of a name. -/
def ofName (name : Text) : EditorKey :=
  let shift : Text := "shift+"
  match (if shift.isPrefixOf name then motion? (name.drop shift.length) else none) with
  | some m => move m true
  | none =>
    match motion? name with
    | some m => move m false
    | none =>
      (commands.findSome? fun p => if Text.ofString p.1 = name then some p.2 else none).getD other

end EditorKey

/-- A key press: the key, and the printable character that it types, if it types one. -/
structure KeyPress where
  key : EditorKey
  typed : Option CodePoint := none
deriving DecidableEq

namespace KeyPress

/-- The press of the key of a name that produces some text: it types a character when the text is a
single printable one. -/
def ofName (name : Text) (produced : Option Text) : KeyPress where
  key := .ofName name
  typed := match produced with
    | some [c] => if c.isPrintable then some c else none
    | _ => none

/-- The press of the key that is named by a character and types it. -/
def ofChar (c : CodePoint) : KeyPress := ofName [c] (some [c])

end KeyPress

namespace Editor

/-- What stands before a place on its line. -/
def before (e : Editor) (place : Cursor) : Except Fault Text :=
  (e.buffer.line place.row).map fun l => Offset.before l place.column

/-- Moves the cursor. -/
def move (e : Editor) (m : Motion) : Except Fault Editor :=
  (e.buffer.move e.visibleHeight m).map fun b => { e with buffer := b }

/-- Selects the whole text. -/
def selectAll (e : Editor) : Except Fault Editor :=
  let last := e.buffer.lastRow
  (e.buffer.line last).map fun l =>
    { e with anchor := some ⟨0, 0⟩, buffer := e.buffer.moveTo last l.length }

/-- Edits the text, unless it is read-only. -/
def edit (e : Editor) (change : Editor → Except Fault Editor) : Except Fault Editor :=
  if e.readOnly then .ok { e with status := "[readonly]" } else change e

/-- Carries out a key press. -/
def perform (e : Editor) (k : KeyPress) : Except Fault Editor :=
  match k.key with
  | .move m true => { e with anchor := some (e.anchor.getD e.cursor) }.move m
  | .move m false => { e with anchor := none }.move m
  | .escape => .ok { e with anchor := none }
  | .selectAll => e.selectAll
  | .undo => .ok e.undoEdit
  | .redo => .ok e.redoEdit
  | .backspace => e.edit fun e => e.deleteOr Buffer.backspace?
  | .delete => e.edit fun e => e.deleteOr Buffer.delete?
  | .enter => e.edit breakLine
  | .tab => e.edit fun e => e.insert "    "
  | .other =>
    match k.typed with
    | some c => e.edit fun e => e.insert [c]
    | none => .ok e

/-- Where completion is wanted after a key press: behind two ampersands, the second of which, or
something put between them and the cursor, it typed. -/
def completionPlace? (e : Editor) (k : KeyPress) : Except Fault (Option Cursor) :=
  if k.key = .other && k.typed.isSome && !e.readOnly then
    (e.before e.cursor).map fun t => if Text.endsWith t "&&" then some e.cursor else none
  else .ok none

/-- What changed between two states of the editor. -/
def changes (before after : Editor) : List EditorMessage :=
  (if after.version = before.version then [] else [.textChanged]) ++
  (if after.cursor = before.cursor && after.anchor = before.anchor then []
    else [.selectionChanged]) ++
  (if after.top = before.top then [] else [.scrolled after.top])

/-- Takes a key press: carries it out, keeps the cursor inside the buffer and on the screen, and
answers what changed. -/
def pressKey (e : Editor) (k : KeyPress) : Except Fault (Editor × List EditorMessage) := do
  let pressed ← { e with status := [] }.perform k
  let place ← pressed.completionPlace? k
  let clamped := { pressed with buffer := ← pressed.buffer.clamp }
  let avail := clamped.textWidth
  let shown := if 0 < avail then clamped.showCursor avail else clamped
  match place with
  | none => return (shown, changes e shown)
  | some place =>
    return (shown, changes e shown ++ [.completionRequested place (← shown.before place)])

/-- Takes key presses one after another. -/
def pressKeys (e : Editor) : List KeyPress → Except Fault (Editor × List EditorMessage)
  | [] => .ok (e, [])
  | k :: ks => do
    let (e, messages) ← e.pressKey k
    let (e, more) ← e.pressKeys ks
    return (e, messages ++ more)

/-- The lines that a turn of the wheel scrolls. -/
def wheelStep : Int := 3

end Editor

end LangFile
