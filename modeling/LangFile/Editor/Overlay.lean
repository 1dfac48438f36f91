import LangFile.Editor.Buffer
import LangFile.Finding

/-!
# Overlays

Spans of a text are cut at line ends into pieces, which are kept by row and laid over the characters
of the row when it is drawn. A piece that does not begin before its row (`Piece.underruns_of_nonneg`)
can always be laid.
-/

namespace LangFile.Editor

/-- The columns of a row from `start` up to `stop`, with what is laid over them. -/
structure Piece (α : Type) where
  start : Int
  stop : Int
  value : α

/-- Pieces by row, the rows in order of first use. -/
abbrev Overlay (α : Type) := List (Nat × List (Piece α))

namespace Overlay

/-- The overlay with one more piece. -/
def add {α : Type} (o : Overlay α) (row : Nat) (piece : Piece α) : Overlay α :=
  match o with
  | [] => [(row, [piece])]
  | (r, ps) :: rest => if r = row then (r, ps ++ [piece]) :: rest else (r, ps) :: add rest row piece

/-- The pieces of a row; none before the first row. -/
def row {α : Type} (o : Overlay α) (r : Int) : List (Piece α) :=
  ((o.find? fun p => (p.1 : Int) = r).map (·.2)).getD []

/-- A span cut by rows: row and columns of each piece. -/
def cut (lines : List Text) (starts : List Nat) (span : Span) : List (Nat × Int × Int) :=
  let first := positionIn starts span.start
  let last := positionIn starts span.stop
  let r := first.row.toNat
  let n := (last.row - first.row).toNat
  let whole := (List.range n).map fun k =>
    (r + k, if k = 0 then first.column else 0, ((lines[r + k]?.getD []).length : Int))
  let start := if n = 0 then first.column else 0
  whole ++ if start < last.column then [(r + n, start, last.column)] else []

/-- The overlay of some spans of the text of a buffer. -/
def ofSpans {α : Type} (b : Buffer) (spans : List (Span × α)) : Overlay α :=
  let starts := b.lineStarts
  spans.foldl (fun o s =>
    (cut b.lines starts s.1).foldl (fun o p => o.add p.1 ⟨p.2.1, p.2.2, s.2⟩) o) []

end Overlay

namespace Piece

/-- The piece covers a column of a line of `n` characters. A negative column counts from the end. -/
def covers {α : Type} (p : Piece α) (n column : Nat) : Bool :=
  let within (c : Int) : Bool := p.start ≤ c && c < min p.stop n
  within column || within ((column : Int) - n)

/-- The piece begins before the first character of a line of `n` characters, and is not empty. -/
def underruns {α : Type} (p : Piece α) (n : Nat) : Bool :=
  p.start < min p.stop n && p.start < -(n : Int)

/-- The styles of a line's characters with the piece laid over them. -/
def lay {α : Type} (style : α → Style) (styles : List Style) (p : Piece α) :
    Except Fault (List Style) :=
  if p.underruns styles.length then .error .noSuchColumn
  else .ok <| styles.mapIdx fun i s => if p.covers styles.length i then s + style p.value else s

theorem underruns_of_nonneg {α : Type} {p : Piece α} (h : 0 ≤ p.start) (n : Nat) :
    p.underruns n = false := by
  simp only [underruns, Bool.and_eq_false_iff, decide_eq_false_iff_not]
  right; omega

end Piece

/-- How a finding is drawn: underlined on a background of its own. -/
def findingStyle (f : Finding) : Style where
  underline := true
  background := some (.rgb (match f.severity with
    | .error => ⟨0x5F, 0x00, 0x00⟩
    | .warning => ⟨0x5F, 0x5F, 0x00⟩))

end LangFile.Editor
