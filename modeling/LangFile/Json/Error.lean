import LangFile.Text.CodePoint

/-!
# Why a text is not JSON

An error names its cause and keeps the part of the text from where the fault lies, from which its
line and column are counted.
-/

namespace LangFile.Json

/-- What is wrong at some place of a text. -/
inductive Fault
  | byteOrderMark
  | value
  | memberName
  | colon
  | comma
  | extraData
  | unterminatedString
  | controlCharacter
  | escape
  | unicodeEscape
  | nesting
deriving DecidableEq

/-- The wording of a fault. -/
def Fault.message : Fault → String
  | byteOrderMark => "Unexpected UTF-8 BOM (decode using utf-8-sig)"
  | value => "Expecting value"
  | memberName => "Expecting property name enclosed in double quotes"
  | colon => "Expecting ':' delimiter"
  | comma => "Expecting ',' delimiter"
  | extraData => "Extra data"
  | unterminatedString => "Unterminated string starting at"
  | controlCharacter => "Invalid control character at"
  | escape => "Invalid \\escape"
  | unicodeEscape => "Invalid \\uXXXX escape"
  | nesting => "Nesting too deep"

/-- Why a text is not JSON. -/
inductive Error
  /-- The text breaks the grammar where `rest` begins. -/
  | malformed (fault : Fault) (rest : Text)
  /-- An integer is written with more digits than are converted. -/
  | longInteger (digits : Nat)
deriving DecidableEq

/-- The wording of an error in the text `t`: line and column count from one, the offset from
zero. -/
def Error.message (t : Text) : Error → Text
  | malformed fault rest =>
    let before := t.take (t.length - rest.length)
    let line := before.count (.scalar '\n') + 1
    let column := (before.reverse.takeWhile (· ≠ .scalar '\n')).length + 1
    fault.message ++ ": line " ++ Text.ofNat line ++ " column " ++ Text.ofNat column ++
      " (char " ++ Text.ofNat before.length ++ ")"
  | longInteger digits =>
    "Exceeds the limit (4300 digits) for integer string conversion: value has " ++
      Text.ofNat digits ++
      " digits; use sys.set_int_max_str_digits() to increase the limit"

end LangFile.Json
