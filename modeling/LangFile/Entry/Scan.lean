import LangFile.Json.Reader
import LangFile.Text.Blank
import LangFile.Text.Quoted

/-!
# Scanning for entries

A language file is scanned leniently for its entries: a quoted key, a colon, and perhaps a quoted
value, with white space around the colon. What stands between entries does not matter, so braces,
commas, comments and mistakes do no harm, and nesting is not seen.
-/

namespace LangFile

/-- An entry of a language file: the body of its key's literal, the offset of that literal, and the
body of its value's literal when it has one. -/
structure Entry where
  rawKey : Text
  start : Nat
  value : Option Text
deriving DecidableEq

/-- What a key's or value's body stands for: the string that its literal is the JSON of, or the body
itself when it has no escape or a wrong one. -/
def unescape (raw : Text) : Text :=
  if raw.contains (.scalar '\\') then
    match Json.parse (.scalar '"' :: raw ++ [.scalar '"']) with
    | .ok (.string s) => s
    | _ => raw
  else raw

namespace Entry

/-- The key. -/
def key (e : Entry) : Text := unescape e.rawKey

/-- The offset behind the key's literal. -/
def stop (e : Entry) : Nat := e.start + e.rawKey.length + 2

/-- A key, a colon and perhaps a value at the start of a text: the bodies of their literals and the
number of code points read. White space after the colon is read even when no value follows it. -/
def pair : Text.Pattern (Text × Option Text) := fun t =>
  match Text.quoted t with
  | none => none
  | some (rawKey, afterKey) =>
    match Text.trimLeft afterKey with
    | .scalar ':' :: afterColon =>
      let afterBlank := Text.trimLeft afterColon
      match Text.quoted afterBlank with
      | some (value, rest) => some ((rawKey, some value), t.length - rest.length)
      | none => some ((rawKey, none), t.length - afterBlank.length)
    | _ => none

/-- The entries of a text in order. -/
def scan (t : Text) : List Entry :=
  (Text.allMatches pair t).map fun m => ⟨m.2.1, m.1, m.2.2⟩

end Entry

/-- The first of the entries that has the key. -/
def firstWithKey (key : Text) (entries : List Entry) : Option Entry :=
  entries.find? fun e => e.key = key

end LangFile
