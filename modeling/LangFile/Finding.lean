import LangFile.Decoration
import LangFile.Document

/-!
# Findings

A finding reports a mistake at a key of a language file.
-/

namespace LangFile

/-- How grave a finding is. -/
inductive Severity
  | error
  | warning
deriving DecidableEq

/-- The severity as it is printed. -/
def Severity.name : Severity → String
  | error => "error"
  | warning => "warning"

/-- A report about the key's literal at the span, in the file at `path`. -/
structure Finding where
  path : Text
  span : Span
  severity : Severity
  message : Text
  key : Text
deriving DecidableEq

/-- The line that reports a finding about a document: rows and columns count from one. -/
def Finding.format (f : Finding) (d : Document) : Text :=
  let pos := d.positionAt f.span.start
  d.path ++ ":" ++ Text.ofInt (pos.row + 1) ++ ":" ++ Text.ofInt (pos.column + 1) ++ ": " ++
    Text.ofString f.severity.name ++ ": " ++ f.message

end LangFile
