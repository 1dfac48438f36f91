import LangFile.Style.Basic

/-!
# Rich text

Text built up by appending styled pieces. The bell, backspace, vertical tab, form feed and carriage
return are dropped on the way in. Each piece that has a style leaves a span over the characters that
were added, and spans are not merged.
-/

namespace LangFile

/-- A styled stretch of a rich text. -/
structure StyledSpan where
  start : Nat
  stop : Nat
  style : Style
deriving DecidableEq

/-- Characters and the styles laid over them. -/
structure RichText where
  plain : Text := []
  spans : List StyledSpan := []
deriving DecidableEq

namespace RichText

/-- The controls that a terminal would act upon. -/
def isTerminalControl (c : CodePoint) : Bool :=
  [0x07, 0x08, 0x0B, 0x0C, 0x0D].contains c.toNat

/-- The text with the terminal's controls dropped. -/
def sanitize (t : Text) : Text := t.filter fun c => !isTerminalControl c

/-- The rich text followed by a piece in some style, as Rich appends to a text: an empty piece leaves
it as it is, the five controls are dropped from any other, and a style that sets nothing has no
span. -/
def append (r : RichText) (t : Text) (style : Style := .null) : RichText :=
  if t.isEmpty then r
  else
    let added := sanitize t
    { plain := r.plain ++ added
      spans :=
        if style.isNull then r.spans
        else r.spans ++ [⟨r.plain.length, r.plain.length + added.length, style⟩] }

/-- Plain text. -/
def ofText (t : Text) : RichText := { plain := sanitize t }

/-- Pieces, each in its style, appended in order. -/
def ofPieces (pieces : List (Text × Style)) : RichText :=
  pieces.foldl (fun r piece => r.append piece.1 piece.2) {}

theorem plain_append (r : RichText) (t : Text) (style : Style) :
    (r.append t style).plain = r.plain ++ sanitize t := by
  unfold append
  split
  · simp_all [sanitize]
  · rfl

end RichText

end LangFile
