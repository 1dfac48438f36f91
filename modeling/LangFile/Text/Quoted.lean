import LangFile.Text.Search

/-!
# Quoted literals

A literal is a quotation mark, a body, and a quotation mark. In the body a backslash and the
character after it, which must not be a line feed, belong together; any other character but the
quotation mark stands for itself. There is only one way to read a literal at a given place.
-/

namespace LangFile.Text

/-- Reads what follows an opening quotation mark: the body and what comes after the closing mark. -/
def quotedBody : Text → Option (Text × Text)
  | [] => none
  | .scalar '"' :: rest => some ([], rest)
  | [.scalar '\\'] => none
  | .scalar '\\' :: c :: rest =>
    if c = .scalar '\n' then none
    else (quotedBody rest).map fun r => (.scalar '\\' :: c :: r.1, r.2)
  | c :: rest => (quotedBody rest).map fun r => (c :: r.1, r.2)

/-- Reads a literal at the start of a text: its body and what comes after it. -/
def quoted : Text → Option (Text × Text)
  | .scalar '"' :: rest => quotedBody rest
  | _ => none

end LangFile.Text
