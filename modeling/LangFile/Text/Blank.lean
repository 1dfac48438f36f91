import LangFile.Text.Ranges

/-!
# White space

Blank code points are those of Unicode's white space together with the four information separators
`U+001C` to `U+001F`; the zero-width space and the byte order mark are not blank.
-/

namespace LangFile

/-- The ranges of blank code points. -/
def blankRanges : CodePointRanges := [
  (0x09, 0x0D), (0x1C, 0x20), (0x85, 0x85), (0xA0, 0xA0), (0x1680, 0x1680), (0x2000, 0x200A),
  (0x2028, 0x2029), (0x202F, 0x202F), (0x205F, 0x205F), (0x3000, 0x3000)]

/-- The code point is white space. -/
def CodePoint.isBlank (c : CodePoint) : Bool := blankRanges.contains c

/-- The code point is one of the information separators, which part files, groups, records and
units. -/
def CodePoint.isInformationSeparator (c : CodePoint) : Bool :=
  0x1C ≤ c.toNat && c.toNat ≤ 0x1F

namespace Text

/-- The text without its leading white space. -/
def trimLeft (t : Text) : Text := t.dropWhile CodePoint.isBlank

/-- The text without its trailing white space. -/
def trimRight (t : Text) : Text := (trimLeft t.reverse).reverse

/-- The text without white space at both ends. -/
def trim (t : Text) : Text := trimRight (trimLeft t)

/-- The number of leading blank code points. -/
def indentation (t : Text) : Nat := (t.takeWhile CodePoint.isBlank).length

end Text

end LangFile
