import LangFile.Text.CodePoint

/-!
# JSON values

Numbers keep their literal. An object keeps its members in the order in which their names first
occur; a repeated name keeps its place and takes the last value.
-/

namespace LangFile

/-- A JSON value. -/
inductive Json
  | null
  | bool (b : Bool)
  | number (literal : Text)
  | string (s : Text)
  | array (items : List Json)
  | object (members : List (Text × Json))

namespace Json

/-- The members with `name` bound to `value`: in place when the name occurs, else at the end. -/
def setMember (members : List (Text × Json)) (name : Text) (value : Json) : List (Text × Json) :=
  match members with
  | [] => [(name, value)]
  | (n, v) :: rest =>
    if n = name then (n, value) :: rest else (n, v) :: setMember rest name value

/-- The members of an object, given as they are written. -/
def collectMembers (written : List (Text × Json)) : List (Text × Json) :=
  written.foldl (fun ms m => setMember ms m.1 m.2) []

/-- The text of a string value. -/
def string? : Json → Option Text
  | string s => some s
  | _ => none

/-- The names of an object's members in order. -/
def names? : Json → Option (List Text)
  | object members => some (members.map (·.1))
  | _ => none

end Json

end LangFile
