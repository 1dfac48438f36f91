import LangFile.Text.Printable

/-!
# Quoted display of a text

A text inside a message stands between apostrophes, or between quotation marks when it holds an
apostrophe and no quotation mark. Backslashes, the delimiter and whatever is not printable are
escaped.
-/

namespace LangFile.Text

/-- Lower-case hexadecimal digits of `n`, at least `width` of them. -/
def hexDigits (width n : Nat) : Text :=
  let ds := Nat.toDigits 16 n
  (List.replicate (width - ds.length) '0' ++ ds).map .scalar

/-- How a code point is written between delimiters. -/
def displayPoint (delimiter : Char) (c : CodePoint) : Text :=
  if c = .scalar '\\' || c = .scalar delimiter then [.scalar '\\', c]
  else if c = .scalar '\t' then "\\t"
  else if c = .scalar '\n' then "\\n"
  else if c = .scalar '\r' then "\\r"
  else if c.isPrintable then [c]
  else if c.toNat < 0x100 then "\\x" ++ hexDigits 2 c.toNat
  else if c.toNat < 0x10000 then "\\u" ++ hexDigits 4 c.toNat
  else "\\U" ++ hexDigits 8 c.toNat

/-- The text as it is shown inside a message. -/
def display (t : Text) : Text :=
  let delimiter : Char :=
    if t.contains (.scalar '\'') && !t.contains (.scalar '"') then '"' else '\''
  .scalar delimiter :: t.flatMap (displayPoint delimiter) ++ [.scalar delimiter]

end LangFile.Text
