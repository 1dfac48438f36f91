import LangFile.Text.CodePoint

/-!
# Colours

A colour has a red, a green and a blue part. Written down it is `#RRGGBB`, two hexadecimal digits to
a part, of which the letters may be of either case: two ways to write a colour are different colours
to whoever compares what is written, and one colour to whoever draws it.

## Main statements

* `HexColor.rgb_ofRgb`: a colour that is written in capitals is the same colour.
-/

namespace LangFile

/-- A colour by its red, green and blue parts. -/
structure Rgb where
  red : UInt8
  green : UInt8
  blue : UInt8
deriving DecidableEq

/-- A hexadecimal digit; its letters have a case. -/
structure HexDigit where
  char : Char
  isHex : ((CodePoint.scalar char).hexValue?).isSome = true
deriving DecidableEq

namespace HexDigit

/-- The value of a digit. -/
def value (d : HexDigit) : Nat := ((CodePoint.scalar d.char).hexValue?).get d.isHex

/-- The digit of a value, a capital if it is a letter. -/
def capital (v : Fin 16) : HexDigit where
  char := Char.ofNat (if v.val < 10 then 0x30 + v.val else 0x41 + v.val - 10)
  isHex := by revert v; decide

/-- The digit that a code point is. -/
def ofCodePoint? : CodePoint → Option HexDigit
  | .scalar c => if h : ((CodePoint.scalar c).hexValue?).isSome = true then some ⟨c, h⟩ else none
  | .surrogate _ => none

theorem value_capital (v : Fin 16) : (capital v).value = v.val := by
  revert v; decide

end HexDigit

/-- Two hexadecimal digits. -/
structure HexByte where
  high : HexDigit
  low : HexDigit
deriving DecidableEq

namespace HexByte

/-- The value of two digits. -/
def value (b : HexByte) : UInt8 := UInt8.ofNat (b.high.value * 16 + b.low.value)

/-- The digits of a value, in capitals. -/
def ofByte (b : UInt8) : HexByte :=
  ⟨.capital ⟨b.toNat / 16, by have := b.toNat_lt; omega⟩,
    .capital ⟨b.toNat % 16, Nat.mod_lt _ (by decide)⟩⟩

/-- The digits. -/
def chars (b : HexByte) : List Char := [b.high.char, b.low.char]

theorem value_ofByte (b : UInt8) : (ofByte b).value = b := by
  simp only [value, ofByte, HexDigit.value_capital]
  rw [show b.toNat / 16 * 16 + b.toNat % 16 = b.toNat by omega]
  exact UInt8.ofNat_toNat

end HexByte

/-- A colour as it is written. -/
structure HexColor where
  red : HexByte
  green : HexByte
  blue : HexByte
deriving DecidableEq

namespace HexColor

/-- The colour that is meant. -/
def rgb (c : HexColor) : Rgb := ⟨c.red.value, c.green.value, c.blue.value⟩

/-- A colour written in capitals. -/
def ofRgb (c : Rgb) : HexColor := ⟨.ofByte c.red, .ofByte c.green, .ofByte c.blue⟩

/-- The colour as `#RRGGBB`. -/
def toString (c : HexColor) : String :=
  String.ofList ('#' :: c.red.chars ++ c.green.chars ++ c.blue.chars)

/-- Reads `#RRGGBB`. -/
def ofText? : Text → Option HexColor
  | .scalar '#' :: digits =>
    match digits.mapM HexDigit.ofCodePoint? with
    | some [a, b, c, d, e, f] => some ⟨⟨a, b⟩, ⟨c, d⟩, ⟨e, f⟩⟩
    | _ => none
  | _ => none

theorem rgb_ofRgb (c : Rgb) : (ofRgb c).rgb = c := by
  simp [rgb, ofRgb, HexByte.value_ofByte]

theorem ofRgb_injective {c d : Rgb} (h : ofRgb c = ofRgb d) : c = d := by
  rw [← rgb_ofRgb c, h, rgb_ofRgb]

end HexColor

/-- The colour as `#RRGGBB`, in capitals. -/
def Rgb.hex (c : Rgb) : String := (HexColor.ofRgb c).toString

end LangFile
