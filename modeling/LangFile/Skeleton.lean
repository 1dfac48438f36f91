import LangFile.Entry.Keys
import LangFile.Json.Quote

/-!
# Skeletons

The skeleton of a language file is a new language file with the same keys, in the same order, and
every value empty.
-/

namespace LangFile.Skeleton

/-- A member of a skeleton on its own line. -/
def member (key : Text) : Text := "    " ++ Json.quote key ++ ": \"\""

/-- The language file with these keys and empty values. -/
def ofKeys (keys : List Text) : Text :=
  if keys.isEmpty then "\x7b\x7d"
  else "\x7b\n" ++ Text.joinWith ",\n" (keys.map member) ++ "\n\x7d"

/-- The skeleton of a language file. -/
def build (t : Text) : Except Json.Error Text :=
  (Key.ofText t).map fun keys => ofKeys (keys.map (·.name))

end LangFile.Skeleton
