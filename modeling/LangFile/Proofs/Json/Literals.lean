import LangFile.Format.Code
import LangFile.Proofs.Json.Grammar
import LangFile.Proofs.Text.Leftmost

/-!
# Where the literals of a JSON text stand

Between the literals of a JSON text stand brackets, commas, colons, numbers, names and white space:
no quotation mark, no backslash, and no section sign. So the literals can be told from the text
alone, whatever the values that they are parts of.

1. Where literals alternate with what holds no quotation mark and no backslash, they are found from
   left to right (`Alternates.eq_literalsFrom`).
2. Texts cut into literals of JSON and what is outside of them (`LiteralsIn`).
3. The literals of a JSON text by the grammar are these (`JsonText.literalsIn`).
-/

namespace LangFile.Json

open Text

/-! ## Reading literals from left to right -/

/-- A literal at the start of a text: its body, and its length. -/
def anyLiteral : Pattern Text := fun t =>
  (quoted t).map fun r => (r.1, t.length - r.2.length)

/-- The literals that are found in a text from left to right. -/
def literalsFrom (pos : Nat) (t : Text) : List Literal :=
  (matchesFrom anyLiteral pos 0 t).map fun m => ⟨m.1, m.2⟩

theorem anyLiteral_literal {b : Text} (hb : IsBody b) (rest : Text) :
    anyLiteral (literal b ++ rest) = some (b, (literal b).length) := by
  rw [anyLiteral, quoted_literal_append hb, Option.map_some, List.length_append,
    Nat.add_sub_cancel]

theorem anyLiteral_cons {c : CodePoint} (hc : c ≠ .scalar '"') (t : Text) :
    anyLiteral (c :: t) = none := by
  have hnone : quoted (c :: t) = none :=
    quoted_eq_none_of_head fun _ h => hc (List.cons.inj h).1
  rw [anyLiteral, hnone, Option.map_none]

/-- A text in which literals, with any escapes, alternate with what holds neither a quotation mark
nor a backslash. -/
inductive Alternates : Nat → Text → List Literal → Prop
  | nil {pos : Nat} : Alternates pos [] []
  | between {pos : Nat} {c : CodePoint} {t : Text} {ls : List Literal} :
      c ≠ .scalar '"' → c ≠ .scalar '\\' → Alternates (pos + 1) t ls → Alternates pos (c :: t) ls
  | item {pos : Nat} {b t : Text} {ls : List Literal} :
      IsBody b → Alternates (pos + (literal b).length) t ls →
      Alternates pos (literal b ++ t) (⟨pos, b⟩ :: ls)

theorem Alternates.eq_literalsFrom {pos : Nat} {t : Text} {ls : List Literal}
    (h : Alternates pos t ls) : ls = literalsFrom pos t := by
  induction h with
  | nil => rfl
  | between hquote _ _ ih => rw [ih, literalsFrom, literalsFrom, matchesFrom, anyLiteral_cons hquote]
  | @item pos b t ls hb _ ih =>
    have hmatch := anyLiteral_literal hb t
    rw [ih, literalsFrom, literalsFrom, matchesFrom_match hmatch (by rw [length_literal]; omega)
      (by simp [literal]), List.drop_left, List.map_cons]

/-- Literals stand one behind the other. -/
theorem Alternates.pairwise {pos : Nat} {t : Text} {ls : List Literal} (h : Alternates pos t ls) :
    (∀ l ∈ ls, pos ≤ l.start) ∧
      ls.Pairwise fun a b => a.start + (literal a.body).length ≤ b.start := by
  induction h with
  | nil => exact ⟨List.forall_mem_nil _, .nil⟩
  | between _ _ _ ih => exact ⟨fun l hl => Nat.le_of_succ_le (ih.1 l hl), ih.2⟩
  | item _ _ ih =>
    refine ⟨List.forall_mem_cons.2 ⟨Nat.le_refl _, fun l hl => ?_⟩, List.pairwise_cons.2 ih⟩
    exact Nat.le_trans (Nat.le_add_right _ _) (ih.1 l hl)

/-! ## Literals and what is between them -/

/-- A character that may stand outside of literals. -/
def IsOutside (c : CodePoint) : Prop := c ≠ .scalar '"' ∧ c ≠ .scalar '\\' ∧ c ≠ marker

instance (c : CodePoint) : Decidable (IsOutside c) :=
  inferInstanceAs (Decidable (c ≠ .scalar '"' ∧ c ≠ .scalar '\\' ∧ c ≠ marker))

/-- The literals of a text that stands at an offset. -/
inductive LiteralsIn : Nat → Text → List Literal → Prop
  | nil {pos : Nat} : LiteralsIn pos [] []
  | outside {pos : Nat} {c : CodePoint} {t : Text} {ls : List Literal} :
      IsOutside c → LiteralsIn (pos + 1) t ls → LiteralsIn pos (c :: t) ls
  | item {pos : Nat} {raw s t : Text} {ls : List Literal} :
      Spells raw s → LiteralsIn (pos + (literal raw).length) t ls →
      LiteralsIn pos (literal raw ++ t) (⟨pos, raw⟩ :: ls)

theorem LiteralsIn.alternates {pos : Nat} {t : Text} {ls : List Literal}
    (h : LiteralsIn pos t ls) : Alternates pos t ls := by
  induction h with
  | nil => exact .nil
  | outside hc _ ih => exact .between hc.1 hc.2.1 ih
  | item hs _ ih => exact .item hs.isBody ih

theorem LiteralsIn.append {pos : Nat} {t u : Text} {ls ls' : List Literal}
    (h : LiteralsIn pos t ls) (h' : LiteralsIn (pos + t.length) u ls') :
    LiteralsIn pos (t ++ u) (ls ++ ls') := by
  induction h with
  | nil => exact h'
  | @outside pos c t ls hc _ ih =>
    refine .outside hc (ih ?_)
    rwa [List.length_cons, Nat.add_comm t.length, ← Nat.add_assoc] at h'
  | @item pos raw s t ls hs _ ih =>
    rw [List.append_assoc]
    refine .item hs (ih ?_)
    rwa [List.length_append, ← Nat.add_assoc] at h'

theorem literalsIn_of_outside {t : Text} (h : ∀ c ∈ t, IsOutside c) (pos : Nat) :
    LiteralsIn pos t [] := by
  induction t generalizing pos with
  | nil => exact .nil
  | cons c t ih =>
    obtain ⟨hc, ht⟩ := List.forall_mem_cons.1 h
    exact .outside hc (ih ht (pos + 1))

theorem LiteralsIn.append_outside {pos : Nat} {t u : Text} {ls : List Literal}
    (h : LiteralsIn pos t ls) (hu : ∀ c ∈ u, IsOutside c) : LiteralsIn pos (t ++ u) ls := by
  have happend := h.append (literalsIn_of_outside hu (pos + t.length))
  rwa [List.append_nil] at happend

theorem literalsIn_outside_append {pos : Nat} {t u : Text} {ls : List Literal}
    (ht : ∀ c ∈ t, IsOutside c) (h : LiteralsIn (pos + t.length) u ls) :
    LiteralsIn pos (t ++ u) ls :=
  (literalsIn_of_outside ht pos).append h

/-- **The literals of a text are those that are found from left to right.** -/
theorem LiteralsIn.eq_literalsFrom {pos : Nat} {t : Text} {ls : List Literal}
    (h : LiteralsIn pos t ls) : ls = literalsFrom pos t :=
  h.alternates.eq_literalsFrom

/-! ## The literals of a JSON text -/

theorem AllSpace.isOutside {w : Text} (h : AllSpace w) : ∀ c ∈ w, IsOutside c :=
  h.forall (by decide)

theorem AllSpace.cut_isOutside {w w' : Text} (hw : AllSpace w) {c : CodePoint} (hc : IsOutside c)
    (hw' : AllSpace w') : ∀ d ∈ w ++ c :: w', IsOutside d :=
  List.forall_mem_append.2 ⟨hw.isOutside, List.forall_mem_cons.2 ⟨hc, hw'.isOutside⟩⟩

theorem IsNumberChar.isOutside {c : CodePoint} (h : IsNumberChar c) : IsOutside c :=
  ⟨h.ne_quotationMark, h.ne (by decide), h.ne (by decide)⟩

theorem ScalarText.literalsIn {lit : Text} {raw : Option Text} {v : Json}
    (h : ScalarText lit raw v) (pos : Nat) :
    LiteralsIn pos lit (raw.toList.map fun body => ⟨pos, body⟩) := by
  cases h with
  | @string raw _ hs =>
    have hliteral : LiteralsIn pos (literal raw ++ []) [⟨pos, raw⟩] := .item hs .nil
    rwa [List.append_nil] at hliteral
  | named hname =>
    have hall : ∀ nv ∈ names, ∀ c ∈ ofString nv.1, IsOutside c := by decide
    exact literalsIn_of_outside (hall _ hname) pos
  | number hnumber =>
    exact literalsIn_of_outside (fun c hc => (hnumber.isNumberChar c hc).isOutside) pos

theorem Bracket.isOutside (b : Bracket) : IsOutside b.opening ∧ IsOutside b.closing := by
  cases b <;> decide

/-- **The literals of a part are those that the grammar has there.** -/
theorem PartText.literalsIn {part : Part} {pos : Nat} {t : Text} {ls : List Literal}
    (h : PartText part pos t ls) : LiteralsIn pos t ls := by
  induction h with
  | scalar hlit => exact hlit.literalsIn _
  | @empty b pos w hw =>
    have hclosing := List.forall_mem_singleton.2 b.isOutside.2
    refine literalsIn_of_outside (List.forall_mem_cons.2 ⟨b.isOutside.1, ?_⟩) pos
    exact List.forall_mem_append.2 ⟨hw.isOutside, hclosing⟩
  | @bracketed b pos w t ls hw _ ih =>
    exact literalsIn_outside_append (List.forall_mem_cons.2 ⟨b.isOutside.1, hw.isOutside⟩) ih
  | @member pos raw name w w' t ls hname hw hw' _ ih =>
    have hliteral : LiteralsIn pos (literal raw ++ []) [⟨pos, raw⟩] := .item hname .nil
    rw [List.append_nil] at hliteral
    exact (hliteral.append_outside (hw.cut_isOutside (by decide) hw')).append ih
  | @last b pos t w ls _ hw ih =>
    exact ih.append_outside
      (List.forall_mem_append.2 ⟨hw.isOutside, List.forall_mem_singleton.2 b.isOutside.2⟩)
  | more _ hw hw' _ ih ih' =>
    exact (ih.append_outside (hw.cut_isOutside (by decide) hw')).append ih'

theorem JsonText.literalsIn {t : Text} {ls : List Literal} (h : JsonText t ls) :
    LiteralsIn 0 t ls := by
  obtain ⟨hw, hpart, hw'⟩ := h
  refine literalsIn_outside_append hw.isOutside ?_
  rw [Nat.zero_add]
  exact hpart.literalsIn.append_outside hw'.isOutside

/-- **A JSON text has one list of literals.** -/
theorem JsonText.unique {t : Text} {ls ls' : List Literal} (h : JsonText t ls)
    (h' : JsonText t ls') : ls' = ls :=
  h'.literalsIn.eq_literalsFrom.trans h.literalsIn.eq_literalsFrom.symm

end LangFile.Json
