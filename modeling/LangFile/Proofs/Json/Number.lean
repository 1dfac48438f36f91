import LangFile.Json.Reader
import LangFile.Text.Blank

/-!
# The grammar of JSON numbers

A number is a sign or none, a whole part without needless zeros, a fraction or none, and an exponent
or none; a number that has neither fraction nor exponent is bounded in its digits. What the reader
takes for a number is derived by this grammar.
-/

namespace LangFile.Json

/-! ## The grammar -/

/-- At least one digit, and nothing else. -/
def AllDigits (ds : Text) : Prop := ds ≠ [] ∧ ∀ c ∈ ds, c.isDigit = true

def IsSign (t : Text) : Prop := t = [] ∨ t = [.scalar '-']

/-- A zero, or digits that do not begin with one. -/
def IsWhole (t : Text) : Prop :=
  t = [.scalar '0'] ∨ AllDigits t ∧ t.head? ≠ some (.scalar '0')

def IsFraction (t : Text) : Prop := t = [] ∨ ∃ ds, AllDigits ds ∧ t = .scalar '.' :: ds

def IsExponent (t : Text) : Prop :=
  t = [] ∨ ∃ c sign ds, (c = .scalar 'e' ∨ c = .scalar 'E') ∧
    (sign = [] ∨ sign = [.scalar '+'] ∨ sign = [.scalar '-']) ∧ AllDigits ds ∧
    t = c :: sign ++ ds

/-- The literals of numbers. -/
inductive IsNumber : Text → Prop
  | mk {sign whole frac expo : Text} :
      IsSign sign → IsWhole whole → IsFraction frac → IsExponent expo →
      (frac = [] → expo = [] → whole.length ≤ Text.integerDigitLimit) →
      IsNumber (sign ++ whole ++ frac ++ expo)

/-! ## The parts of a number -/

theorem digits_append (t : Text) : (digits t).1 ++ (digits t).2 = t :=
  List.takeWhile_append_dropWhile

theorem allDigits_digits {t : Text} (h : (digits t).1 ≠ []) : AllDigits (digits t).1 :=
  ⟨h, List.all_eq_true.1 List.all_takeWhile⟩

theorem fraction_sound (t : Text) :
    (fraction t).1 ++ (fraction t).2 = t ∧ IsFraction (fraction t).1 := by
  unfold fraction
  split
  · next rest =>
    dsimp only
    split
    · exact ⟨rfl, Or.inl rfl⟩
    · next hne =>
      refine ⟨?_, Or.inr ⟨_, allDigits_digits (by simpa using hne), rfl⟩⟩
      rw [List.cons_append, digits_append]
  · exact ⟨rfl, Or.inl rfl⟩

theorem exponentSign_sound (t : Text) :
    (exponentSign t).1 ++ (exponentSign t).2 = t ∧
      ((exponentSign t).1 = [] ∨ (exponentSign t).1 = [.scalar '+'] ∨
        (exponentSign t).1 = [.scalar '-']) := by
  unfold exponentSign
  split
  · next c rest =>
    split
    · next hc =>
      rw [Bool.or_eq_true, decide_eq_true_eq, decide_eq_true_eq] at hc
      rcases hc with rfl | rfl
      · exact ⟨rfl, Or.inr (Or.inl rfl)⟩
      · exact ⟨rfl, Or.inr (Or.inr rfl)⟩
    · exact ⟨rfl, Or.inl rfl⟩
  · exact ⟨rfl, Or.inl rfl⟩

theorem exponent_sound (t : Text) :
    (exponent t).1 ++ (exponent t).2 = t ∧ IsExponent (exponent t).1 := by
  unfold exponent
  split
  · next c rest =>
    split
    · next hc =>
      rw [Bool.or_eq_true, decide_eq_true_eq, decide_eq_true_eq] at hc
      obtain ⟨happend, hsign⟩ := exponentSign_sound rest
      dsimp only
      split
      · exact ⟨rfl, Or.inl rfl⟩
      · next hne =>
        refine ⟨?_, Or.inr ⟨c, _, _, hc, hsign, allDigits_digits (by simpa using hne), rfl⟩⟩
        rw [List.append_assoc, digits_append, List.cons_append, happend]
    · exact ⟨rfl, Or.inl rfl⟩
  · exact ⟨rfl, Or.inl rfl⟩

theorem minusSign_sound (t : Text) :
    (minusSign t).1 ++ (minusSign t).2 = t ∧ IsSign (minusSign t).1 := by
  unfold minusSign
  split
  · exact ⟨rfl, Or.inr rfl⟩
  · exact ⟨rfl, Or.inl rfl⟩

theorem wholePart_sound (t : Text) :
    (wholePart t).1 ++ (wholePart t).2 = t ∧ ((wholePart t).1 ≠ [] → IsWhole (wholePart t).1) := by
  unfold wholePart
  split
  · exact ⟨rfl, fun _ => Or.inl rfl⟩
  · next hzero =>
    refine ⟨digits_append t, fun hne => Or.inr ⟨allDigits_digits hne, ?_⟩⟩
    intro hhead
    obtain ⟨rest, hrest⟩ := List.head?_eq_some_iff.1 hhead
    have ht := digits_append t
    rw [hrest] at ht
    exact hzero _ ht.symm

/-- **What is read as a number is one, and is kept as it is written.** -/
theorem isNumber_of_readNumber {t after : Text} {v : Json} (h : readNumber t = .ok (v, after)) :
    ∃ lit, t = lit ++ after ∧ v = .number lit ∧ IsNumber lit := by
  obtain ⟨hsign, isSign⟩ := minusSign_sound t
  obtain ⟨hwhole, isWhole⟩ := wholePart_sound (minusSign t).2
  obtain ⟨hfrac, isFraction⟩ := fraction_sound (wholePart (minusSign t).2).2
  obtain ⟨hexpo, isExponent⟩ := exponent_sound (fraction (wholePart (minusSign t).2).2).2
  unfold readNumber at h
  dsimp only at h
  split at h
  · simp at h
  · next hne =>
    split at h
    · simp at h
    · next hlimit =>
      obtain ⟨rfl, rfl⟩ := Prod.mk.inj (Except.ok.inj h)
      refine ⟨_, ?_, rfl, .mk isSign (isWhole (by simpa using hne)) isFraction isExponent ?_⟩
      · simp only [List.append_assoc]
        rw [hexpo, hfrac, hwhole, hsign]
      · intro hf he
        simp only [Bool.and_eq_true, List.isEmpty_iff, decide_eq_true_eq, not_and, Nat.not_lt]
          at hlimit
        exact hlimit ⟨hf, he⟩

/-! ## The characters of a number -/

/-- A digit, a sign, a point, or the letter of an exponent. -/
def IsNumberChar (c : CodePoint) : Prop :=
  c.isDigit = true ∨ c ∈ ['+', '-', '.', 'e', 'E'].map CodePoint.scalar

instance (c : CodePoint) : Decidable (IsNumberChar c) :=
  inferInstanceAs
    (Decidable (c.isDigit = true ∨ c ∈ ['+', '-', '.', 'e', 'E'].map CodePoint.scalar))

theorem IsNumberChar.ne {c d : CodePoint} (h : IsNumberChar c) (hd : ¬ IsNumberChar d) : c ≠ d := by
  rintro rfl
  exact hd h

theorem IsNumberChar.ne_quotationMark {c : CodePoint} (h : IsNumberChar c) : c ≠ .scalar '"' :=
  h.ne (by decide)

theorem IsNumberChar.not_isBlank {c : CodePoint} (h : IsNumberChar c) : c.isBlank = false := by
  rcases h with h | h
  · simp only [CodePoint.isDigit, Bool.and_eq_true, decide_eq_true_eq] at h
    rw [Bool.eq_false_iff, CodePoint.isBlank, Ne, CodePointRanges.contains_iff]
    rintro ⟨r, hr, hlow, hhigh⟩
    simp only [blankRanges, List.mem_cons, List.not_mem_nil, or_false] at hr
    rcases hr with rfl | rfl | rfl | rfl | rfl | rfl | rfl | rfl | rfl | rfl <;>
      simp only at hlow hhigh <;> omega
  · revert c
    decide

theorem AllDigits.isNumberChar {ds : Text} (h : AllDigits ds) : ∀ c ∈ ds, IsNumberChar c :=
  fun c hc => Or.inl (h.2 c hc)

theorem IsNumber.isNumberChar {lit : Text} (h : IsNumber lit) : ∀ c ∈ lit, IsNumberChar c := by
  obtain ⟨hs, hw, hf, he, -⟩ := h
  simp only [List.forall_mem_append]
  refine ⟨⟨⟨?_, ?_⟩, ?_⟩, ?_⟩
  · rcases hs with rfl | rfl
    · simp
    · exact List.forall_mem_singleton.2 (Or.inr (by decide))
  · rcases hw with rfl | ⟨hw, -⟩
    · exact List.forall_mem_singleton.2 (Or.inl (by decide))
    · exact hw.isNumberChar
  · rcases hf with rfl | ⟨ds, hds, rfl⟩
    · simp
    · exact List.forall_mem_cons.2 ⟨Or.inr (by decide), hds.isNumberChar⟩
  · rcases he with rfl | ⟨c, sign, ds, hc, hs, hds, rfl⟩
    · simp
    · rw [List.cons_append, List.forall_mem_cons, List.forall_mem_append]
      refine ⟨Or.inr ?_, ?_, hds.isNumberChar⟩
      · rcases hc with rfl | rfl <;> decide
      · rcases hs with rfl | rfl | rfl
        · simp
        · exact List.forall_mem_singleton.2 (Or.inr (by decide))
        · exact List.forall_mem_singleton.2 (Or.inr (by decide))

theorem IsNumber.ne_nil {lit : Text} (h : IsNumber lit) : lit ≠ [] := by
  obtain ⟨-, hw, -, -, -⟩ := h
  intro he
  simp only [List.append_eq_nil_iff] at he
  rcases hw with rfl | ⟨hw, -⟩
  · exact List.cons_ne_nil _ _ he.1.1.2
  · exact hw.1 he.1.1.2

end LangFile.Json
