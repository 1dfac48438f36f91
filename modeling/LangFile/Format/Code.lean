import LangFile.Format.Color

/-!
# Formatting codes

Text carries inline formatting: the section sign followed by one character. Sixteen codes set a
colour, five set a modifier, and one resets everything.
-/

namespace LangFile

/-- The section sign, which introduces a formatting code. -/
def marker : CodePoint := .scalar '§'

/-- The formatting codes. -/
inductive FormattingCode
  | black | darkBlue | darkGreen | darkAqua | darkRed | darkPurple | gold | gray
  | darkGray | blue | green | aqua | red | lightPurple | yellow | white
  | obfuscated | bold | strikethrough | underline | italic | reset
deriving DecidableEq

namespace FormattingCode

/-- Every code, the colours first. -/
def all : List FormattingCode :=
  [black, darkBlue, darkGreen, darkAqua, darkRed, darkPurple, gold, gray,
   darkGray, blue, green, aqua, red, lightPurple, yellow, white,
   obfuscated, bold, strikethrough, underline, italic, reset]

theorem mem_all (code : FormattingCode) : code ∈ all := by cases code <;> decide

/-- The character that stands for the code after the section sign. -/
def char : FormattingCode → Char
  | black => '0' | darkBlue => '1' | darkGreen => '2' | darkAqua => '3'
  | darkRed => '4' | darkPurple => '5' | gold => '6' | gray => '7'
  | darkGray => '8' | blue => '9' | green => 'a' | aqua => 'b'
  | red => 'c' | lightPurple => 'd' | yellow => 'e' | white => 'f'
  | obfuscated => 'k' | bold => 'l' | strikethrough => 'm' | underline => 'n'
  | italic => 'o' | reset => 'r'

/-- The name shown to the user. -/
def label : FormattingCode → String
  | black => "Black" | darkBlue => "Dark Blue" | darkGreen => "Dark Green"
  | darkAqua => "Dark Aqua" | darkRed => "Dark Red" | darkPurple => "Dark Purple"
  | gold => "Gold" | gray => "Gray" | darkGray => "Dark Gray" | blue => "Blue"
  | green => "Green" | aqua => "Aqua" | red => "Red" | lightPurple => "Light Purple"
  | yellow => "Yellow" | white => "White" | obfuscated => "Obfuscated" | bold => "Bold"
  | strikethrough => "Strikethrough" | underline => "Underline" | italic => "Italic"
  | reset => "Reset"

/-- The colour that the code sets. -/
def color : FormattingCode → Option Rgb
  | black => some ⟨0x00, 0x00, 0x00⟩
  | darkBlue => some ⟨0x00, 0x00, 0xAA⟩
  | darkGreen => some ⟨0x00, 0xAA, 0x00⟩
  | darkAqua => some ⟨0x00, 0xAA, 0xAA⟩
  | darkRed => some ⟨0xAA, 0x00, 0x00⟩
  | darkPurple => some ⟨0xAA, 0x00, 0xAA⟩
  | gold => some ⟨0xFF, 0xAA, 0x00⟩
  | gray => some ⟨0xAA, 0xAA, 0xAA⟩
  | darkGray => some ⟨0x55, 0x55, 0x55⟩
  | blue => some ⟨0x55, 0x55, 0xFF⟩
  | green => some ⟨0x55, 0xFF, 0x55⟩
  | aqua => some ⟨0x55, 0xFF, 0xFF⟩
  | red => some ⟨0xFF, 0x55, 0x55⟩
  | lightPurple => some ⟨0xFF, 0x55, 0xFF⟩
  | yellow => some ⟨0xFF, 0xFF, 0x55⟩
  | white => some ⟨0xFF, 0xFF, 0xFF⟩
  | _ => none

/-- The code sets a colour. -/
def isColor (code : FormattingCode) : Bool := code.color.isSome

/-- The code as it is written in a text. -/
def sequence (code : FormattingCode) : Text := [marker, .scalar code.char]

/-- The code that a character stands for, in either letter case. -/
def lookup (c : CodePoint) : Option FormattingCode :=
  all.find? fun code => c.toLower = .scalar code.char

/-- The code that a text of one character stands for. -/
def lookupText : Text → Option FormattingCode
  | [c] => lookup c
  | _ => none

theorem lookup_char (code : FormattingCode) : lookup (.scalar code.char) = some code := by
  cases code <;> decide

end FormattingCode

end LangFile
