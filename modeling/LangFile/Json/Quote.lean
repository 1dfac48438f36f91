import LangFile.Json.Value

/-!
# Writing JSON strings

Quotation marks, backslashes and the controls below `U+0020` are escaped; everything else, lone
surrogates included, is written as it is.
-/

namespace LangFile.Json

/-- Two lower-case hexadecimal digits. -/
def twoHex (n : Nat) : Text :=
  [.scalar (Nat.digitChar (n / 16 % 16)), .scalar (Nat.digitChar (n % 16))]

/-- How a code point is written inside a string. -/
def escape (c : CodePoint) : Text :=
  match c with
  | .scalar '"' => "\\\""
  | .scalar '\\' => "\\\\"
  | .scalar '\n' => "\\n"
  | .scalar '\r' => "\\r"
  | .scalar '\t' => "\\t"
  | .scalar '\x08' => "\\b"
  | .scalar '\x0c' => "\\f"
  | c => if c.toNat < 0x20 then "\\u00" ++ twoHex c.toNat else [c]

/-- The literal of a string. -/
def quote (s : Text) : Text := .scalar '"' :: s.flatMap escape ++ [.scalar '"']

end LangFile.Json
