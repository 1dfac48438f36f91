import LangFile.Format.Code
import LangFile.Style.RichText

/-!
# Completion of formatting codes

Typing two ampersands in a language, Markdown or plain text file offers every formatting code. The
code that is picked replaces the ampersands.
-/

namespace LangFile.Completion

/-- What has to stand before the cursor. -/
def trigger : Text := "&&"

/-- The languages in which codes are offered. -/
def languages : List Text := ["json", "jsonc", "plaintext", "markdown"]

/-- The codes offered behind `before` in a text of the given language: all or none. -/
def offers (before language : Text) : List FormattingCode :=
  if languages.contains language && Text.endsWith before trigger then FormattingCode.all else []

/-- The text by which an offer is filtered. -/
def filterText (code : FormattingCode) : Text := trigger ++ [.scalar code.char]

/-- How an offer is shown: a swatch of its colour, the code, and its name. -/
def prompt (code : FormattingCode) : RichText :=
  let swatch : Text × Style := match code.color with
    | some c => ("■ ", .ofForeground (.rgb c))
    | none => ("  ", .null)
  .ofPieces
    [swatch, (code.sequence, { bold := true }),
      ("  " ++ Text.ofString code.label, { dim := true })]

end LangFile.Completion
