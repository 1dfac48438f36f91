import LangFile.Entry.Scan

/-!
# The keys of a language file

Each distinct key once, where it first occurs. A text without any entry is read as strict JSON, and
the names of its members are the keys, with no place in the text.
-/

namespace LangFile

/-- A key of a language file, with the body of its literal, its value when that is a string, and the
place of its literal when it has one. -/
structure Key where
  name : Text
  raw : Text
  value : Option Text
  place : Option (Nat × Nat)
deriving DecidableEq

namespace Key

/-- The key that an entry has. -/
def ofEntry (e : Entry) : Key := ⟨e.key, e.rawKey, e.value, some (e.start, e.stop)⟩

/-- The keys without those whose name occurred before; `seen` are the names already met. -/
def dedupFrom (seen : List Text) : List Key → List Key
  | [] => []
  | k :: ks =>
    if seen.contains k.name then dedupFrom seen ks else k :: dedupFrom (k.name :: seen) ks

/-- The keys of a text's entries, each name once. -/
def ofEntries (entries : List Entry) : List Key := dedupFrom [] (entries.map ofEntry)

/-- The names of a JSON object's members as keys. -/
def ofJson : Json → List Key
  | .object members => members.map fun m => ⟨m.1, m.1, m.2.string?, none⟩
  | _ => []

/-- The keys of a language file. -/
def ofText (t : Text) : Except Json.Error (List Key) :=
  match ofEntries (Entry.scan t) with
  | [] => (Json.parse t).map ofJson
  | keys => .ok keys

end Key

end LangFile
