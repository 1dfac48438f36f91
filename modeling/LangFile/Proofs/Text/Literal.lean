import LangFile.Text.Blank
import LangFile.Text.Quoted

/-!
# The grammar of quoted literals

`quoted` reads exactly the literals of the grammar, and a text begins with at most one of them.

## Main statements

* `quoted_eq_some_iff`: what is read at the start of a text is the literal that stands there.
* `trimLeft_append`: white space is trimmed up to whatever follows it.
-/

namespace LangFile.Text

/-! ## Bodies and literals -/

/-- A body is a sequence of characters other than the quotation mark and the backslash, and of
backslash pairs whose second character is not a line feed. -/
inductive IsBody : Text → Prop
  | nil : IsBody []
  | plain {c : CodePoint} {b : Text} :
      c ≠ .scalar '"' → c ≠ .scalar '\\' → IsBody b → IsBody (c :: b)
  | escaped {c : CodePoint} {b : Text} :
      c ≠ .scalar '\n' → IsBody b → IsBody (.scalar '\\' :: c :: b)

/-- The literal that has a body. -/
def literal (body : Text) : Text := .scalar '"' :: body ++ [.scalar '"']

theorem length_literal (body : Text) : (literal body).length = body.length + 2 := by
  simp [literal]

theorem literal_append (body rest : Text) :
    literal body ++ rest = .scalar '"' :: (body ++ .scalar '"' :: rest) := by
  simp [literal]

/-! ## Reading a literal -/

theorem quotedBody_plain {c : CodePoint} (hq : c ≠ .scalar '"') (hb : c ≠ .scalar '\\')
    (t : Text) : quotedBody (c :: t) = (quotedBody t).map fun r => (c :: r.1, r.2) := by
  rw [quotedBody]
  · exact hq
  · intro h
    exact absurd h hb
  · intro _ _ h
    exact absurd h hb

theorem quotedBody_escaped {c : CodePoint} (hc : c ≠ .scalar '\n') (t : Text) :
    quotedBody (.scalar '\\' :: c :: t)
      = (quotedBody t).map fun r => (.scalar '\\' :: c :: r.1, r.2) := by
  rw [quotedBody, if_neg hc]

/-- **A body is read up to the quotation mark that follows it.** -/
theorem quotedBody_append {b : Text} (h : IsBody b) (rest : Text) :
    quotedBody (b ++ .scalar '"' :: rest) = some (b, rest) := by
  induction h with
  | nil => rw [List.nil_append, quotedBody]
  | plain hq hb _ ih => rw [List.cons_append, quotedBody_plain hq hb, ih]; rfl
  | escaped hc _ ih =>
    rw [List.cons_append, List.cons_append, quotedBody_escaped hc, ih]; rfl

/-- What is read as a body is one, and a quotation mark follows it. -/
theorem isBody_of_quotedBody {t b rest : Text} (h : quotedBody t = some (b, rest)) :
    IsBody b ∧ t = b ++ .scalar '"' :: rest := by
  fun_induction quotedBody t generalizing b rest with
  | case1 => simp at h
  | case2 =>
    obtain ⟨rfl, rfl⟩ : [] = b ∧ _ = rest := by simpa using h
    exact ⟨.nil, rfl⟩
  | case3 => simp at h
  | case4 => simp at h
  | case5 c r hc ih =>
    obtain ⟨⟨b', s⟩, hbs, hr⟩ := Option.map_eq_some_iff.1 h
    obtain ⟨rfl, rfl⟩ := Prod.mk.injEq .. ▸ hr
    obtain ⟨hb', rfl⟩ := ih hbs
    exact ⟨.escaped hc hb', rfl⟩
  | case6 c r hq hlast hpair ih =>
    obtain ⟨⟨b', s⟩, hbs, hr⟩ := Option.map_eq_some_iff.1 h
    obtain ⟨rfl, rfl⟩ := Prod.mk.injEq .. ▸ hr
    obtain ⟨hb', rfl⟩ := ih hbs
    have hb : c ≠ .scalar '\\' := by
      intro hc
      cases b' with
      | nil => exact hpair _ _ hc rfl
      | cons d b' => exact hpair _ _ hc rfl
    exact ⟨.plain hq hb hb', rfl⟩

theorem isBody_iff {b : Text} : IsBody b ↔ quotedBody (b ++ [.scalar '"']) = some (b, []) :=
  ⟨fun h => quotedBody_append h [], fun h => (isBody_of_quotedBody h).1⟩

instance : DecidablePred IsBody := fun _ => decidable_of_iff _ isBody_iff.symm

/-- **What is read at the start of a text is the literal that stands there.** -/
theorem quoted_eq_some_iff {t b rest : Text} :
    quoted t = some (b, rest) ↔ IsBody b ∧ t = literal b ++ rest := by
  constructor
  · intro h
    unfold quoted at h
    split at h
    · obtain ⟨hb, rfl⟩ := isBody_of_quotedBody h
      exact ⟨hb, (literal_append b rest).symm⟩
    · simp at h
  · rintro ⟨hb, rfl⟩
    rw [literal_append, quoted]
    exact quotedBody_append hb rest

theorem quoted_literal_append {b : Text} (h : IsBody b) (rest : Text) :
    quoted (literal b ++ rest) = some (b, rest) :=
  quoted_eq_some_iff.2 ⟨h, rfl⟩

/-- No literal begins with another character than the quotation mark. -/
theorem quoted_eq_none_of_head {t : Text} (h : ∀ r, t ≠ .scalar '"' :: r) : quoted t = none := by
  unfold quoted
  split
  · next r => exact absurd rfl (h r)
  · rfl

/-! ## White space -/

/-- All characters are white space. -/
def AllBlank (w : Text) : Prop := ∀ c ∈ w, c.isBlank = true

instance (w : Text) : Decidable (AllBlank w) :=
  inferInstanceAs (Decidable (∀ c ∈ w, c.isBlank = true))

/-- Trimming takes off a run of white space. -/
theorem exists_eq_append_trimLeft (t : Text) : ∃ w, AllBlank w ∧ t = w ++ trimLeft t := by
  refine ⟨t.takeWhile CodePoint.isBlank, ?_, List.takeWhile_append_dropWhile.symm⟩
  exact List.all_eq_true.1 List.all_takeWhile

/-- **White space is trimmed up to whatever follows it.** -/
theorem trimLeft_append {w : Text} (h : AllBlank w) (t : Text) :
    trimLeft (w ++ t) = trimLeft t := by
  rw [trimLeft, List.dropWhile_append_of_pos h, trimLeft]

theorem trimLeft_cons {c : CodePoint} (h : c.isBlank = false) (t : Text) :
    trimLeft (c :: t) = c :: t := by
  rw [trimLeft, List.dropWhile_cons_of_neg (by simp [h])]

theorem quotationMark_not_blank : (CodePoint.scalar '"').isBlank = false := by decide

theorem colon_not_blank : (CodePoint.scalar ':').isBlank = false := by decide

theorem trimLeft_literal_append (b rest : Text) :
    trimLeft (literal b ++ rest) = literal b ++ rest := by
  rw [literal_append, trimLeft_cons quotationMark_not_blank]

end LangFile.Text
