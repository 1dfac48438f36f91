import LangFile.Style.Basic
import LangFile.Text.Search

/-!
# Colouring a line

A line is coloured as JSON, character by character and without regard to the lines before it. A
quotation mark that does not follow a backslash opens or closes a string. Strings before the first
colon outside strings are keys.
-/

namespace LangFile.Editor

/-- What a character of a line is. -/
inductive Ink
  | plain
  | bracket
  | key
  | string
  | number
  | keyword
deriving DecidableEq

/-- How a kind of character is drawn. -/
def Ink.style : Ink → Style
  | plain => { foreground := some (.palette .white) }
  | bracket => { foreground := some (.palette .white), bold := true }
  | key => { foreground := some (.palette .cyan) }
  | string => { foreground := some (.palette .green) }
  | number => { foreground := some (.palette .yellow) }
  | keyword => { foreground := some (.palette .magenta) }

namespace Coloring

/-- Whether each character belongs to a string, quotation marks included, when the characters before
end inside a string or not, and with a backslash or not. -/
def stringFlagsFrom (inString afterBackslash : Bool) : Text → List Bool
  | [] => []
  | c :: cs =>
    if c = .scalar '"' && !afterBackslash then true :: stringFlagsFrom (!inString) false cs
    else inString :: stringFlagsFrom inString (c = .scalar '\\') cs

/-- Whether each character of a line belongs to a string. -/
def stringFlags (line : Text) : List Bool := stringFlagsFrom false false line

/-- The column of the first colon outside strings. -/
def firstColon? (line : Text) : Option Nat :=
  (line.zip (stringFlags line)).findIdx? fun p => p.1 = .scalar ':' && !p.2

/-- The character is a bracket or brace. -/
def isBracket (c : CodePoint) : Bool := ("\x7b\x7d[]" : Text).contains c

/-- The character can be part of a number. -/
def isNumeric (c : CodePoint) : Bool := ("0123456789.-+eE" : Text).contains c

/-- A keyword at the start of a text, and its length. -/
def keyword : Text.Pattern Unit := fun t =>
  (["true", "false", "null"].find? fun w : String => (w : Text).isPrefixOf t).map
    fun w => ((), w.length)

/-- What a character is by itself: `column` is its place, and `colon` that of the first colon. -/
def baseInk (colon : Option Nat) (column : Nat) (c : CodePoint) (inString : Bool) : Ink :=
  if isBracket c then .bracket
  else if inString then
    match colon with
    | some k => if column < k then .key else .string
    | none => .key
  else if isNumeric c then .number
  else .plain

/-- The columns of the keywords that begin outside strings, with their lengths. -/
def keywords (line : Text) : List (Nat × Nat) :=
  let flags := stringFlags line
  (Text.allMatches (fun t => (keyword t).map fun m => (m.2, m.2)) line).filter
    fun m => flags[m.1]? = some false

/-- What each character of a line is. -/
def inks (line : Text) : List Ink :=
  let colon := firstColon? line
  let words := keywords line
  (line.zip (stringFlags line)).mapIdx fun i p =>
    if words.any fun w => w.1 ≤ i && i < w.1 + w.2 then .keyword else baseInk colon i p.1 p.2

/-- The style of each character of a line. -/
def styles (line : Text) : List Style := (inks line).map Ink.style

end Coloring

end LangFile.Editor
