import LangFile.Text.Blank
import LangFile.Text.Digit

/-!
# Reading integers

An integer is written in decimal digits of any script, behind a sign if need be. Single underscores
may part the digits, and white space may stand around the whole; an information separator is not
white space here. The number of digits is bounded, leading zeros counted and underscores not,
because the work of turning digits into a number grows with its square.
-/

namespace LangFile.Text

/-- The number that decimal digits write, where `n` is the number of the digits before; none without
digits only. -/
def digitsValue? (n : Nat) : Text → Option Nat
  | [] => some n
  | c :: cs => c.decimalValue?.bind fun d => digitsValue? (n * 10 + d) cs

/-- The number that groups of decimal digits write; none when a group is empty. -/
def groupsValue? (n : Nat) : List Text → Option Nat
  | [] => some n
  | g :: gs => if g.isEmpty then none else (digitsValue? n g).bind fun n => groupsValue? n gs

/-- The most digits that an integer may have. -/
def integerDigitLimit : Nat := 4300

/-- The number that is written without a sign; none when it has too many digits. -/
def toNat? (t : Text) : Option Nat :=
  let groups := splitOn (.scalar '_') t
  if integerDigitLimit < groups.flatten.length then none else groupsValue? 0 groups

/-- The code point may stand around an integer. -/
def isPadding (c : CodePoint) : Bool := c.isBlank && !c.isInformationSeparator

/-- The text without the padding at both ends. -/
def unpadded (t : Text) : Text := ((t.dropWhile isPadding).reverse.dropWhile isPadding).reverse

/-- The integer that a text writes. -/
def toInt? (t : Text) : Option Int :=
  match unpadded t with
  | .scalar '-' :: digits => (toNat? digits).map fun n => -(n : Int)
  | .scalar '+' :: digits => (toNat? digits).map fun n => (n : Int)
  | digits => (toNat? digits).map fun n => (n : Int)

end LangFile.Text
