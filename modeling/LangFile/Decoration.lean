import LangFile.Format.Run
import LangFile.Style.Handles
import LangFile.Text.Quoted

/-!
# Decorating a text

Inside the quoted literals of a text that hold a formatting code, the styled runs are collected by
style. A literal without a section sign is not taken as a literal, so the search goes on behind its
opening quotation mark.
-/

namespace LangFile

/-- A stretch of a text: the offsets from `start` up to `stop`. -/
structure Span where
  start : Int
  stop : Int
deriving DecidableEq

/-- Styles with the spans drawn in each, in order of first use. -/
abbrev StyledSpans := List (Style × List Span)

namespace Decoration

/-- The body holds a section sign that is not the second half of a backslash pair. -/
def hasBareMarker : Text → Bool
  | [] => false
  | .scalar '\\' :: _ :: rest => hasBareMarker rest
  | c :: rest => c = marker || hasBareMarker rest

/-- A literal with a section sign at the start of a text: its body, and its length. -/
def markedLiteral : Text.Pattern Text := fun t =>
  match Text.quoted t with
  | some (body, rest) =>
    if hasBareMarker body then some (body, t.length - rest.length) else none
  | none => none

/-- The styled runs inside the marked literals of a text, at their offsets in the text. -/
def runs (t : Text) : List Run :=
  (Text.allMatches markedLiteral t).flatMap fun m => Run.runs m.2 false (m.1 + 1)

/-- The spans with one more drawn in `style`. -/
def addSpan (spans : StyledSpans) (style : Style) (span : Span) : StyledSpans :=
  match spans with
  | [] => [(style, [span])]
  | (s, list) :: rest =>
    if s = style then (s, list ++ [span]) :: rest else (s, list) :: addSpan rest style span

/-- The spans with those of one style given anew. A style keeps its place, and a new one comes
last. -/
def setSpans (spans : StyledSpans) (style : Style) (list : List Span) : StyledSpans :=
  match spans with
  | [] => [(style, list)]
  | (s, old) :: rest =>
    if s = style then (s, list) :: rest else (s, old) :: setSpans rest style list

/-- The spans with those of one more run, in the style that the handle table has for its state. -/
def addRun (drawn : StyledSpans × StyleHandles) (run : Run) : StyledSpans × StyleHandles :=
  let (style, handles) := drawn.2.get run.state
  (addSpan drawn.1 style ⟨run.start, run.stop⟩, handles)

end Decoration

/-- The styled spans of a text, and the handle table with a handle for every state in use. -/
def decorate (t : Text) (handles : StyleHandles) : StyledSpans × StyleHandles :=
  (Decoration.runs t).foldl Decoration.addRun ([], handles)

end LangFile
