/-!
# Code points and texts

A text is a list of code points. A code point is a Unicode scalar value or a lone surrogate: the
latter never come from a file, but an escape such as `\ud83d` in a key decodes to one.
-/

namespace LangFile

/-- A Unicode code point; the surrogates are numbered from `U+D800`. -/
inductive CodePoint
  | scalar (c : Char)
  | surrogate (n : Fin 2048)
deriving DecidableEq

namespace CodePoint

instance : Coe Char CodePoint := ⟨.scalar⟩

/-- The number of the code point. -/
def toNat : CodePoint → Nat
  | scalar c => c.toNat
  | surrogate n => 0xD800 + n.val

/-- The code point of that number, if there is one. -/
def ofNat? (n : Nat) : Option CodePoint :=
  if h : n < 0xD800 ∨ 0xE000 ≤ n ∧ n < 0x110000 then
    some (.scalar (Char.ofNatAux n (by
      simp only [Nat.isValidChar]; omega)))
  else if h : 0xD800 ≤ n ∧ n < 0xE000 then
    some (.surrogate ⟨n - 0xD800, by omega⟩)
  else none

/-- An ASCII code point. -/
def isAscii (c : CodePoint) : Bool := c.toNat < 0x80

/-- A decimal digit `0` to `9`. -/
def isDigit (c : CodePoint) : Bool := 0x30 ≤ c.toNat && c.toNat ≤ 0x39

/-- The value of a hexadecimal digit of either case. -/
def hexValue? (c : CodePoint) : Option Nat :=
  let n := c.toNat
  if 0x30 ≤ n && n ≤ 0x39 then some (n - 0x30)
  else if 0x61 ≤ n && n ≤ 0x66 then some (n - 0x61 + 10)
  else if 0x41 ≤ n && n ≤ 0x46 then some (n - 0x41 + 10)
  else none

/-- The lower-case form as far as ASCII names can meet it: the ASCII capitals, and the Kelvin sign,
the one other code point whose lower-case form is an ASCII letter. -/
def toLower : CodePoint → CodePoint
  | scalar c => if c = '\u212a' then scalar 'k' else scalar c.toLower
  | c => c

theorem toNat_scalar (c : Char) : (scalar c).toNat = c.toNat := rfl

end CodePoint

/-- A text is a sequence of code points; offsets and lengths count them. -/
abbrev Text := List CodePoint

namespace Text

/-- The text of a string. -/
def ofString (s : String) : Text := s.toList.map .scalar

instance : Coe String Text := ⟨ofString⟩

/-- The decimal digits of a number. -/
def ofNat (n : Nat) : Text := ofString (toString n)

/-- Decimal digits, after a minus sign for a negative number. -/
def ofInt : Int → Text
  | .ofNat n => ofNat n
  | .negSucc n => .scalar '-' :: ofNat (n + 1)

theorem ofNat_eq_digits (n : Nat) : ofNat n = (Nat.toDigits 10 n).map .scalar := by
  rw [ofNat, ofString, Nat.toString_eq_ofList_toDigits, String.toList_ofList]

/-- A number is written in decimal digits. -/
theorem isDigit_of_mem_ofNat {n : Nat} {c : CodePoint} (h : c ∈ ofNat n) : c.isDigit = true := by
  rw [ofNat_eq_digits] at h
  obtain ⟨d, hd, rfl⟩ := List.mem_map.1 h
  exact Nat.isDigit_of_mem_toDigits (by decide) (by decide) hd

/-- Different numbers are written differently, since their digits are read back. -/
theorem ofNat_inj {m n : Nat} : ofNat m = ofNat n ↔ m = n := by
  refine ⟨fun h => ?_, congrArg ofNat⟩
  rw [ofNat_eq_digits, ofNat_eq_digits, List.map_inj_right fun _ _ => CodePoint.scalar.inj] at h
  calc
    m = Nat.ofDigitChars 10 (Nat.toDigits 10 m) 0 := Nat.ofDigitChars_ten_toDigits.symm
    _ = Nat.ofDigitChars 10 (Nat.toDigits 10 n) 0 := by rw [h]
    _ = n := Nat.ofDigitChars_ten_toDigits

/-- The code points from `start` up to, not including, `stop`. -/
def slice (t : Text) (start stop : Nat) : Text := (t.take stop).drop start

/-- Writes the texts one after another with `sep` between neighbours. -/
def joinWith (sep : Text) : List Text → Text
  | [] => []
  | [t] => t
  | t :: u :: ts => t ++ sep ++ joinWith sep (u :: ts)

/-- Cuts the text at every `sep`; there is one more piece than there are separators. -/
def splitOn (sep : CodePoint) : Text → List Text
  | [] => [[]]
  | c :: cs =>
    if c = sep then [] :: splitOn sep cs
    else match splitOn sep cs with
      | [] => [[c]]
      | piece :: pieces => (c :: piece) :: pieces

theorem joinWith_eq_intercalate (sep : Text) (pieces : List Text) :
    joinWith sep pieces = List.intercalate sep pieces := by
  induction pieces with
  | nil => rfl
  | cons piece rest ih =>
    cases rest with
    | nil => simp [joinWith]
    | cons next rest => rw [joinWith, ih, List.intercalate_cons_cons]

theorem splitOn_eq (sep : CodePoint) (t : Text) : splitOn sep t = List.splitOn sep t := by
  induction t with
  | nil => rw [splitOn, List.splitOn_nil]
  | cons c cs ih =>
    obtain ⟨piece, pieces, hcs⟩ := List.exists_cons_of_ne_nil (List.splitOn_ne_nil sep cs)
    rw [splitOn, List.splitOn_cons_eq_if_modifyHead, ih, hcs]
    simp

theorem splitOn_ne_nil (sep : CodePoint) (t : Text) : splitOn sep t ≠ [] :=
  splitOn_eq sep t ▸ List.splitOn_ne_nil sep t

/-- No piece holds the separator. -/
theorem not_mem_of_mem_splitOn {sep : CodePoint} {t p : Text} (h : p ∈ splitOn sep t) :
    sep ∉ p := by
  induction t generalizing p with
  | nil => simp_all [splitOn]
  | cons c cs ih =>
    unfold splitOn at h
    split at h
    · rcases List.mem_cons.1 h with rfl | h
      · simp
      · exact ih h
    · next hc =>
      split at h
      · next hp => exact absurd hp (splitOn_ne_nil _ _)
      · next piece pieces hp =>
        rcases List.mem_cons.1 h with rfl | h
        · have hpiece : sep ∉ piece := ih (by rw [hp]; exact List.mem_cons_self)
          exact fun hm => (List.mem_cons.1 hm).elim (fun e => hc e.symm) hpiece
        · exact ih (by rw [hp]; exact List.mem_cons_of_mem _ h)

/-- The lines of a text: it is cut at every line feed. -/
def lines (t : Text) : List Text := splitOn '\n' t

/-- The text whose lines these are. -/
def unlines (ls : List Text) : Text := joinWith ['\n'] ls

/-- The text ends with `tail`. -/
def endsWith (t tail : Text) : Bool := tail.isSuffixOf t

/-- The text with every code point in lower case. -/
def toLower (t : Text) : Text := t.map CodePoint.toLower

/-- Every occurrence of `c` replaced by `new`. -/
def replaceAll (c : CodePoint) (new : Text) (t : Text) : Text :=
  t.flatMap fun d => if d = c then new else [d]

/-- Joining the pieces with the separator undoes the cut. -/
theorem joinWith_splitOn (sep : CodePoint) (t : Text) : joinWith [sep] (splitOn sep t) = t := by
  rw [joinWith_eq_intercalate, splitOn_eq, List.intercalate_splitOn]

theorem unlines_lines (t : Text) : unlines (lines t) = t := joinWith_splitOn _ t

end Text

end LangFile
