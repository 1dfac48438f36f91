import LangFile.Text.CodePoint

/-!
# UTF-8

Strict decoding and encoding. A malformed byte sequence is reported with its place, its bytes and
what is wrong with it; overlong forms and encoded surrogates are malformed. A lone surrogate has no
encoding.

## Well-formed sequences

A lead byte fixes how many bytes follow it and which range the first of them is taken from; all
others are `80` to `BF`. Reading stops at the first byte that does not fit, so the bytes of a
malformed sequence are its lead byte and those that still fitted.
-/

namespace LangFile.Utf8

/-- What a lead byte announces: the number of bytes that follow and the range of the first. -/
structure Lead where
  following : Nat
  low : Nat
  high : Nat

/-- What the byte announces as the lead of a sequence of several bytes, if it can be one. -/
def lead? (b : Nat) : Option Lead :=
  if 0xC2 ≤ b ∧ b ≤ 0xDF then some ⟨1, 0x80, 0xBF⟩
  else if b = 0xE0 then some ⟨2, 0xA0, 0xBF⟩
  else if b = 0xED then some ⟨2, 0x80, 0x9F⟩
  else if 0xE1 ≤ b ∧ b ≤ 0xEF then some ⟨2, 0x80, 0xBF⟩
  else if b = 0xF0 then some ⟨3, 0x90, 0xBF⟩
  else if 0xF1 ≤ b ∧ b ≤ 0xF3 then some ⟨3, 0x80, 0xBF⟩
  else if b = 0xF4 then some ⟨3, 0x80, 0x8F⟩
  else none

/-- The longest part of `bs`, of at most `n` bytes, that continues a sequence whose next byte lies
between `low` and `high`. -/
def continuation : Nat → Nat → Nat → List UInt8 → List UInt8
  | 0, _, _, _ => []
  | _ + 1, _, _, [] => []
  | n + 1, low, high, b :: bs =>
    if low ≤ b.toNat ∧ b.toNat ≤ high then b :: continuation n 0x80 0xBF bs else []

/-- What is wrong with a byte sequence. -/
inductive Flaw
  | invalidStart
  | invalidContinuation
  | truncated
deriving DecidableEq

/-- The wording of a flaw. -/
def Flaw.message : Flaw → String
  | .invalidStart => "invalid start byte"
  | .invalidContinuation => "invalid continuation byte"
  | .truncated => "unexpected end of data"

/-- A malformed sequence: its offset in the data, its bytes, and its flaw. -/
structure DecodeError where
  offset : Nat
  bytes : List UInt8
  flaw : Flaw
deriving DecidableEq

/-- The number of a sequence: the payload bits of its lead byte, then six bits of each other. -/
def sequenceValue (b : UInt8) (following : List UInt8) : Nat :=
  following.foldl (fun v c => v * 64 + c.toNat % 64) (b.toNat % Nat.pow 2 (6 - following.length))

/-- Reads the code points of `bs`; `offset` bytes lie before it and `done` holds the code points
read from them, last first. -/
def decodeFrom (offset : Nat) (done : Text) (bs : List UInt8) : Except DecodeError Text :=
  match bs with
  | [] => .ok done.reverse
  | b :: rest =>
    if b.toNat < 0x80 then
      decodeFrom (offset + 1) (.scalar (Char.ofNat b.toNat) :: done) rest
    else match lead? b.toNat with
      | none => .error ⟨offset, [b], .invalidStart⟩
      | some l =>
        let taken := continuation l.following l.low l.high rest
        if taken.length = l.following then
          decodeFrom (offset + 1 + taken.length)
            (.scalar (Char.ofNat (sequenceValue b taken)) :: done) (rest.drop taken.length)
        else if taken.length = rest.length then .error ⟨offset, b :: taken, .truncated⟩
        else .error ⟨offset, b :: taken, .invalidContinuation⟩
termination_by bs.length
decreasing_by
  · simp
  · simp only [List.length_drop, List.length_cons]; omega

/-- The text of UTF-8 data. -/
def decode (bs : List UInt8) : Except DecodeError Text := decodeFrom 0 [] bs

/-- Two lower-case hexadecimal digits. -/
def hexByte (n : Nat) : Text :=
  let digit (d : Nat) : CodePoint := .scalar (Nat.digitChar d)
  [digit (n / 16 % 16), digit (n % 16)]

/-- The wording of a decoding error. -/
def DecodeError.message (e : DecodeError) : Text :=
  match e.bytes with
  | [b] =>
    "'utf-8' codec can't decode byte 0x" ++ hexByte b.toNat ++ " in position " ++
      Text.ofNat e.offset ++ ": " ++ e.flaw.message
  | bs =>
    "'utf-8' codec can't decode bytes in position " ++ Text.ofNat e.offset ++ "-" ++
      Text.ofNat (e.offset + bs.length - 1) ++ ": " ++ e.flaw.message

/-- The first run of lone surrogates of a text: its offset and its surrogates. -/
structure EncodeError where
  offset : Nat
  surrogates : List (Fin 2048)
deriving DecidableEq

/-- The surrogates at the start of a text. -/
def leadingSurrogates : Text → List (Fin 2048)
  | .surrogate n :: t => n :: leadingSurrogates t
  | _ => []

/-- Writes the bytes of `t`; `offset` code points lie before it and `done` holds their bytes, last
first. -/
def encodeFrom (offset : Nat) (done : List UInt8) : Text → Except EncodeError (List UInt8)
  | [] => .ok done.reverse
  | .scalar c :: t => encodeFrom (offset + 1) ((String.utf8EncodeChar c).reverse ++ done) t
  | .surrogate n :: t => .error ⟨offset, n :: leadingSurrogates t⟩

/-- The UTF-8 data of a text. -/
def encode (t : Text) : Except EncodeError (List UInt8) := encodeFrom 0 [] t

/-- The number of bytes of a text, a lone surrogate counting three. -/
def byteLength (t : Text) : Nat :=
  t.foldr (fun
    | .scalar c, n => c.utf8Size + n
    | .surrogate _, n => 3 + n) 0

/-- The wording of an encoding error. -/
def EncodeError.message (e : EncodeError) : Text :=
  match e.surrogates with
  | [n] =>
    let v := 0xD800 + n.val
    "'utf-8' codec can't encode character '\\u" ++ hexByte (v / 256) ++ hexByte (v % 256) ++
      "' in position " ++ Text.ofNat e.offset ++ ": surrogates not allowed"
  | ns =>
    "'utf-8' codec can't encode characters in position " ++ Text.ofNat e.offset ++ "-" ++
      Text.ofNat (e.offset + ns.length - 1) ++ ": surrogates not allowed"

/-- The text has an encoding exactly when it holds no lone surrogate. -/
theorem encodeFrom_isOk_iff (offset : Nat) (done : List UInt8) (t : Text) :
    (encodeFrom offset done t).isOk = true ↔ ∀ n, CodePoint.surrogate n ∉ t := by
  induction t generalizing offset done with
  | nil => simp [encodeFrom, Except.isOk, Except.toBool]
  | cons c t ih =>
    cases c with
    | scalar c => simp [encodeFrom, ih]
    | surrogate n =>
      simp only [encodeFrom, Except.isOk, Except.toBool, Bool.false_eq_true, false_iff]
      intro h
      exact h n List.mem_cons_self

end LangFile.Utf8
