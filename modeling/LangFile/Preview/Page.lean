import LangFile.Preview.Lines

/-!
# The preview as an HTML page

One `div` per line holds one `span` per segment, with the state as an inline style sheet. Angle
brackets and ampersands of the text are written as entities.
-/

namespace LangFile.Preview

/-- The text with markup characters written as entities. -/
def escapeMarkup (t : Text) : Text :=
  Text.replaceAll '>' "&gt;" (Text.replaceAll '<' "&lt;" (Text.replaceAll '&' "&amp;" t))

/-- The colour of text to which no code gives one. -/
def defaultColor : Rgb := ⟨0xFF, 0xFF, 0xFF⟩

/-- The declarations that draw a state. -/
def declarations (s : FormattingState) : List String :=
  let lines := (if s.strikethrough then ["line-through"] else []) ++
    (if s.underline then ["underline"] else [])
  ["color: " ++ ((s.color.map (·.toString)).getD defaultColor.hex) ++ ";"] ++
  (if s.bold then ["font-weight: bold;"] else []) ++
  (if s.italic then ["font-style: italic;"] else []) ++
  (if lines.isEmpty then [] else ["text-decoration: " ++ " ".intercalate lines ++ ";"]) ++
  (if s.obfuscated then ["opacity: 0.5;"] else [])

/-- The inline style sheet of a state. -/
def css (s : FormattingState) : String := " ".intercalate (declarations s)

/-- A segment as HTML. -/
def spanHtml (segment : Segment) : Text :=
  "<span style=\"" ++ Text.ofString (css segment.2) ++ "\">" ++ escapeMarkup segment.1 ++ "</span>"

/-- A line as HTML; a line with nothing visible holds a non-breaking space. -/
def lineHtml (segments : List Segment) : Text :=
  let inside := segments.flatMap spanHtml
  "<div>" ++ (if inside.isEmpty then ("&nbsp;" : Text) else inside) ++ "</div>"

/-- The lines of a text as HTML. -/
def body (t : Text) : Text := (lines t).flatMap lineHtml

/-- The page before its body. -/
def pageHead : String :=
  "<!DOCTYPE html>\n" ++
  "<html lang=\"en\">\n" ++
  "<head>\n" ++
  "<meta charset=\"UTF-8\">\n" ++
  "<style>\n" ++
  "body \x7b font-family: 'Minecraft', 'Consolas', monospace; padding: 20px; font-size: 14px; " ++
    "line-height: 1.5; color: #FFFFFF; \x7d\n" ++
  ".controls \x7b position: fixed; top: 10px; right: 10px; z-index: 1000; \x7d\n" ++
  "button \x7b cursor: pointer; padding: 8px 12px; background: #444; color: white; " ++
    "border: 1px solid #666; border-radius: 4px; font-size: 12px; \x7d\n" ++
  "button:hover \x7b background: #666; \x7d\n" ++
  ".bg-dark \x7b background-color: #1e1e1e; \x7d\n" ++
  ".bg-light \x7b background-color: #ffffff; \x7d\n" ++
  "</style>\n" ++
  "</head>\n" ++
  "<body class=\"bg-dark\">\n" ++
  "<div class=\"controls\"><button onclick=\"toggleTheme()\">Toggle Theme (B/W)</button></div>\n" ++
  "<div id=\"content\">"

/-- The page after its body. -/
def pageTail : String :=
  "</div>\n" ++
  "<script>\n" ++
  "function toggleTheme() \x7b\n" ++
  "    document.body.classList.toggle('bg-dark');\n" ++
  "    document.body.classList.toggle('bg-light');\n" ++
  "\x7d\n" ++
  "</script>\n" ++
  "</body>\n" ++
  "</html>\n"

/-- The preview page of a text. -/
def page (t : Text) : Text := pageHead ++ body t ++ pageTail

end LangFile.Preview
