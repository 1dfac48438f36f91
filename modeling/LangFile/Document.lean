import LangFile.Path
import LangFile.Text.CodePoint

/-!
# Documents

The text of a file that is being edited, with a version that counts its changes and the offsets at
which its lines start.
-/

namespace LangFile

/-- Languages of files, as far as they are told apart. -/
inductive Language
  | json | jsonc | markdown | plaintext
deriving DecidableEq

namespace Language

/-- The name of a language. -/
def name : Language → Text
  | json => "json"
  | jsonc => "jsonc"
  | markdown => "markdown"
  | plaintext => "plaintext"

/-- The language that a name ending stands for, in either letter case. -/
def ofSuffix (suffix : Text) : Language :=
  let s := Text.toLower suffix
  if s = ".json" then json
  else if s = ".jsonc" then jsonc
  else if s = ".md" || s = ".markdown" then markdown
  else plaintext

/-- The language of a file. -/
def ofPath (p : Path) : Language := ofSuffix p.suffix

end Language

/-- The offsets at which the lines of a text start, when the text itself starts at `pos`: the start
of the text, and behind each line feed. -/
def lineStartsFrom (pos : Nat) : Text → List Nat
  | [] => []
  | c :: cs =>
    if c = .scalar '\n' then (pos + 1) :: lineStartsFrom (pos + 1) cs
    else lineStartsFrom (pos + 1) cs

/-- The offsets at which the lines of a text start. -/
def lineStarts (t : Text) : List Nat := 0 :: lineStartsFrom 0 t

/-- A place in a text: row and column count from zero. -/
structure Position where
  row : Int
  column : Int
deriving DecidableEq

/-- The row whose start is the last one not behind `offset`, and the distance from that start. The
starts increase. -/
def positionIn (starts : List Nat) (offset : Int) : Position :=
  let row := (starts.countP fun s : Nat => decide ((s : Int) ≤ offset)) - 1
  ⟨row, offset - (starts[row]?.getD 0 : Nat)⟩

/-- An open document. -/
structure Document where
  path : Text
  language : Text
  version : Nat := 0
  text : Text := []
  starts : List Nat := [0]

namespace Document

/-- A new document; the language is found from the path unless it is given. -/
def new (path text : Text) (language : Text := []) : Document :=
  let p := Path.ofText path
  { path := p.toText
    language := if language.isEmpty then (Language.ofPath p).name else language
    text, starts := lineStarts text }

/-- The name of the document's file. -/
def fileName (d : Document) : Text := (Path.ofText d.path).name

/-- The document with a new text. Its version tells whether the text is a different one. -/
def setText (d : Document) (text : Text) : Document :=
  if text = d.text then d
  else { d with text, starts := lineStarts text, version := d.version + 1 }

/-- The position of an offset; one outside the text stands for the nearer end. -/
def positionAt (d : Document) (offset : Int) : Position :=
  positionIn d.starts (max 0 (min offset d.text.length))

/-- The offset of a column in a row; a row outside the text stands for the nearer end, and the
offset does not pass the end of the text. -/
def offsetAt (d : Document) (row column : Int) : Int :=
  let r := (max 0 (min row (d.starts.length - 1))).toNat
  min ((d.starts[r]?.getD 0 : Nat) + column) d.text.length

/-- The text has changed between two states of the document. -/
theorem version_setText (d : Document) (text : Text) :
    (d.setText text).version = if text = d.text then d.version else d.version + 1 := by
  unfold setText
  split <;> rfl

theorem text_setText (d : Document) (text : Text) : (d.setText text).text = text := by
  unfold setText
  split
  · next h => exact h.symm
  · rfl

end Document

end LangFile
