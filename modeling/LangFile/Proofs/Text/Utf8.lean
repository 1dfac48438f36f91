import LangFile.Text.Utf8

/-!
# Reading what was encoded

The bytes of a character are read as that character, whatever follows them. So every text that has an
encoding is read back from it, and only a text with a lone surrogate has none.

The four sizes of a sequence are four ranges of numbers: the lead byte fixes the size, and the
bounds on the byte behind it shut out overlong forms, surrogates and what lies behind `U+10FFFF`.
-/

namespace LangFile.Utf8

/-! ## Lead bytes -/

theorem lead?_two {b : Nat} (h : 0xC2 ≤ b ∧ b ≤ 0xDF) : lead? b = some ⟨1, 0x80, 0xBF⟩ := by
  rw [lead?, if_pos h]

theorem lead?_three {b : Nat} (h : 0xE0 ≤ b ∧ b ≤ 0xEF) :
    lead? b = some ⟨2, if b = 0xE0 then 0xA0 else 0x80, if b = 0xED then 0x9F else 0xBF⟩ := by
  unfold lead?
  rw [if_neg (by omega)]
  by_cases h0 : b = 0xE0
  · simp [h0]
  · by_cases hD : b = 0xED
    · simp [hD]
    · simp [h0, hD, show 0xE1 ≤ b by omega, h.2]

theorem lead?_four {b : Nat} (h : 0xF0 ≤ b ∧ b ≤ 0xF4) :
    lead? b = some ⟨3, if b = 0xF0 then 0x90 else 0x80, if b = 0xF4 then 0x8F else 0xBF⟩ := by
  unfold lead?
  rw [if_neg (by omega), if_neg (by omega), if_neg (by omega), if_neg (by omega)]
  by_cases h0 : b = 0xF0
  · simp [h0]
  · by_cases h4 : b = 0xF4
    · simp [h4]
    · simp [h0, h4, show 0xF1 ≤ b by omega, show b ≤ 0xF3 by omega]

/-! ## One sequence -/

theorem continuation_cons {n low high : Nat} {b : UInt8} {bs : List UInt8}
    (h : low ≤ b.toNat ∧ b.toNat ≤ high) :
    continuation (n + 1) low high (b :: bs) = b :: continuation n 0x80 0xBF bs := by
  rw [continuation, if_pos h]

/-- The byte can stand anywhere behind the second place of a sequence. -/
def IsTail (b : UInt8) : Prop := 0x80 ≤ b.toNat ∧ b.toNat ≤ 0xBF

section

variable {offset : Nat} {done : Text} {b b₁ b₂ b₃ : UInt8} {rest : List UInt8}

theorem decodeFrom_one (hb : b.toNat < 0x80) :
    decodeFrom offset done (b :: rest)
      = decodeFrom (offset + 1) (.scalar (Char.ofNat b.toNat) :: done) rest := by
  rw [decodeFrom, if_pos hb]

/-- A lead byte is read with the bytes that it announces. -/
theorem decodeFrom_sequence {l : Lead} {taken : List UInt8} (hb : 0x80 ≤ b.toNat)
    (hl : lead? b.toNat = some l)
    (htaken : continuation l.following l.low l.high (taken ++ rest) = taken)
    (hlength : taken.length = l.following) :
    decodeFrom offset done (b :: (taken ++ rest))
      = decodeFrom (offset + 1 + taken.length)
          (.scalar (Char.ofNat (sequenceValue b taken)) :: done) rest := by
  rw [decodeFrom, if_neg (Nat.not_lt.2 hb), hl]
  simp only [htaken, hlength, if_true]
  rw [← hlength, List.drop_left]

theorem decodeFrom_two (hb : 0xC2 ≤ b.toNat ∧ b.toNat ≤ 0xDF) (h₁ : IsTail b₁) :
    decodeFrom offset done (b :: b₁ :: rest)
      = decodeFrom (offset + 2)
          (.scalar (Char.ofNat (b.toNat % 32 * 64 + b₁.toNat % 64)) :: done) rest := by
  have htaken : continuation 1 0x80 0xBF ([b₁] ++ rest) = [b₁] := by
    rw [List.singleton_append, continuation_cons h₁, continuation]
  exact decodeFrom_sequence (by omega) (lead?_two hb) htaken rfl

theorem decodeFrom_three (hb : 0xE0 ≤ b.toNat ∧ b.toNat ≤ 0xEF)
    (h₁ : (if b.toNat = 0xE0 then 0xA0 else 0x80) ≤ b₁.toNat ∧
      b₁.toNat ≤ if b.toNat = 0xED then 0x9F else 0xBF)
    (h₂ : IsTail b₂) :
    decodeFrom offset done (b :: b₁ :: b₂ :: rest)
      = decodeFrom (offset + 3)
          (.scalar (Char.ofNat ((b.toNat % 16 * 64 + b₁.toNat % 64) * 64 + b₂.toNat % 64)) :: done)
          rest := by
  have htaken : continuation 2 (if b.toNat = 0xE0 then 0xA0 else 0x80)
      (if b.toNat = 0xED then 0x9F else 0xBF) ([b₁, b₂] ++ rest) = [b₁, b₂] := by
    rw [List.cons_append, continuation_cons h₁, List.singleton_append, continuation_cons h₂,
      continuation]
  exact decodeFrom_sequence (by omega) (lead?_three hb) htaken rfl

theorem decodeFrom_four (hb : 0xF0 ≤ b.toNat ∧ b.toNat ≤ 0xF4)
    (h₁ : (if b.toNat = 0xF0 then 0x90 else 0x80) ≤ b₁.toNat ∧
      b₁.toNat ≤ if b.toNat = 0xF4 then 0x8F else 0xBF)
    (h₂ : IsTail b₂) (h₃ : IsTail b₃) :
    decodeFrom offset done (b :: b₁ :: b₂ :: b₃ :: rest)
      = decodeFrom (offset + 4)
          (.scalar (Char.ofNat (((b.toNat % 8 * 64 + b₁.toNat % 64) * 64 + b₂.toNat % 64) * 64
            + b₃.toNat % 64)) :: done) rest := by
  have htaken : continuation 3 (if b.toNat = 0xF0 then 0x90 else 0x80)
      (if b.toNat = 0xF4 then 0x8F else 0xBF) ([b₁, b₂, b₃] ++ rest) = [b₁, b₂, b₃] := by
    rw [List.cons_append, continuation_cons h₁, List.cons_append, continuation_cons h₂,
      List.singleton_append, continuation_cons h₃, continuation]
  exact decodeFrom_sequence (by omega) (lead?_four hb) htaken rfl

end

/-! ## A whole text -/

/-- **The bytes of a character are read as that character.** -/
theorem decodeFrom_utf8EncodeChar (offset : Nat) (done : Text) (c : Char) (rest : List UInt8) :
    decodeFrom offset done (String.utf8EncodeChar c ++ rest)
      = decodeFrom (offset + (String.utf8EncodeChar c).length) (.scalar c :: done) rest := by
  have hvalid : c.val.toNat < 0xD800 ∨ 0xDFFF < c.val.toNat ∧ c.val.toNat < 0x110000 := c.valid
  have hchar : Char.ofNat c.val.toNat = c := Char.ofNat_toNat c
  have hbyte (n : Nat) (hn : n < 256) : (UInt8.ofNat n).toNat = n := by
    rw [UInt8.toNat_ofNat', Nat.mod_eq_of_lt hn]
  unfold String.utf8EncodeChar
  generalize c.val.toNat = v at hvalid hchar ⊢
  dsimp only
  split
  · have hb := hbyte v (by omega)
    rw [List.singleton_append, decodeFrom_one (by omega), hb, hchar]
    rfl
  · have hlast := hbyte (v % 64 + 128) (by omega)
    have htail : IsTail (UInt8.ofNat (v % 64 + 128)) := by
      rw [IsTail, hlast]
      omega
    split
    · have hb := hbyte (v / 64 % 32 + 192) (by omega)
      rw [List.cons_append, List.singleton_append, decodeFrom_two (by omega) htail, hb, hlast,
        show (v / 64 % 32 + 192) % 32 * 64 + (v % 64 + 128) % 64 = v by omega, hchar]
      rfl
    · have hthird := hbyte (v / 64 % 64 + 128) (by omega)
      split
      · have hb := hbyte (v / 4096 % 16 + 224) (by omega)
        have hsecond : (if v / 4096 % 16 + 224 = 0xE0 then 0xA0 else 0x80) ≤ v / 64 % 64 + 128 ∧
            v / 64 % 64 + 128 ≤ if v / 4096 % 16 + 224 = 0xED then 0x9F else 0xBF := by
          split <;> split <;> omega
        rw [List.cons_append, List.cons_append, List.singleton_append,
          decodeFrom_three (by omega) (by rw [hb, hthird]; exact hsecond) htail, hb, hthird, hlast,
          show ((v / 4096 % 16 + 224) % 16 * 64 + (v / 64 % 64 + 128) % 64) * 64
            + (v % 64 + 128) % 64 = v by omega, hchar]
        rfl
      · have hb := hbyte (v / 262144 % 8 + 240) (by omega)
        have hsecond := hbyte (v / 4096 % 64 + 128) (by omega)
        have hbounds : (if v / 262144 % 8 + 240 = 0xF0 then 0x90 else 0x80) ≤ v / 4096 % 64 + 128 ∧
            v / 4096 % 64 + 128 ≤ if v / 262144 % 8 + 240 = 0xF4 then 0x8F else 0xBF := by
          split <;> split <;> omega
        have hthird' : IsTail (UInt8.ofNat (v / 64 % 64 + 128)) := by
          rw [IsTail, hthird]
          omega
        rw [List.cons_append, List.cons_append, List.cons_append, List.singleton_append,
          decodeFrom_four (by omega) (by rw [hb, hsecond]; exact hbounds) hthird' htail, hb,
          hsecond, hthird, hlast,
          show (((v / 262144 % 8 + 240) % 8 * 64 + (v / 4096 % 64 + 128) % 64) * 64
            + (v / 64 % 64 + 128) % 64) * 64 + (v % 64 + 128) % 64 = v by omega, hchar]
        rfl

/-- What is encoded behind some bytes is read behind some text. -/
theorem exists_decodeFrom_of_encodeFrom {offset : Nat} {done bs : List UInt8} {t : Text}
    (h : encodeFrom offset done t = .ok bs) :
    ∃ new, bs = done.reverse ++ new ∧
      ∀ offset' done', decodeFrom offset' done' new = .ok (done'.reverse ++ t) := by
  induction t generalizing offset done with
  | nil =>
    obtain rfl : done.reverse = bs := Except.ok.inj h
    refine ⟨[], (List.append_nil _).symm, fun offset' done' => ?_⟩
    rw [decodeFrom, List.append_nil]
  | cons c t ih =>
    cases c with
    | scalar c =>
      obtain ⟨new, rfl, hread⟩ := ih h
      refine ⟨String.utf8EncodeChar c ++ new, by simp, fun offset' done' => ?_⟩
      rw [decodeFrom_utf8EncodeChar, hread]
      simp
    | surrogate n => exact absurd h (by simp [encodeFrom])

/-- **What was encoded is read back.** -/
theorem decode_of_encode {t : Text} {bs : List UInt8} (h : encode t = .ok bs) :
    decode bs = .ok t := by
  obtain ⟨new, rfl, hread⟩ := exists_decodeFrom_of_encodeFrom h
  exact hread 0 []

/-- What was encoded holds no lone surrogate. -/
theorem not_mem_of_encode {t : Text} {bs : List UInt8} (h : encode t = .ok bs) (n : Fin 2048) :
    CodePoint.surrogate n ∉ t := by
  refine (encodeFrom_isOk_iff 0 [] t).1 ?_ n
  rw [encode] at h
  rw [h]
  rfl

/-- Only a lone surrogate has no encoding. -/
theorem exists_surrogate_of_encode {t : Text} {e : EncodeError} (h : encode t = .error e) :
    ∃ n, CodePoint.surrogate n ∈ t := by
  refine Classical.byContradiction fun hnone => ?_
  have hok := (encodeFrom_isOk_iff 0 [] t).2 (not_exists.1 hnone)
  rw [encode] at h
  rw [h] at hok
  exact Bool.noConfusion hok

end LangFile.Utf8
