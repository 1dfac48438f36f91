import LangFile.Proofs.Json.Grammar
import LangFile.Proofs.Text.Stretch

/-!
# Nested values are stretches

However deep arrays and objects nest, what the strict reader reads as a value cuts no literal in two
and no name from its value. So the text before a member of an object is such a stretch, whatever the
values of the members before it.

1. Parts: each part of a text is a stretch (`PartText.shape`).
2. Objects: the text before the name of a member is a stretch (`ObjectText.standsIn`).
-/

namespace LangFile.Json

open Text

/-! ## Scalars -/

theorem AllSpace.stretch {w : Text} (h : AllSpace w) : Stretch w :=
  .of_plain (h.forall (by decide))

theorem IsNumberChar.isPlainChar {c : CodePoint} (h : IsNumberChar c) : IsPlainChar c :=
  ⟨h.ne_quotationMark, h.ne (by decide), h.ne (by decide)⟩

theorem ScalarText.solidStretch {lit : Text} {raw : Option Text} {v : Json}
    (h : ScalarText lit raw v) : SolidStretch lit := by
  cases h with
  | @string raw _ hs =>
    have hsolid := SolidStretch.item hs.isBody .nil
    rwa [List.append_nil] at hsolid
  | named hname =>
    have hall : ∀ nv ∈ names, ofString nv.1 ≠ [] ∧
        ∀ c ∈ ofString nv.1, IsPlainChar c ∧ c.isBlank = false := by
      decide
    obtain ⟨hne, hplain⟩ := hall _ hname
    exact .of_plain hne hplain
  | number hnumber =>
    refine .of_plain hnumber.ne_nil fun c hc => ?_
    have hchar := hnumber.isNumberChar c hc
    exact ⟨hchar.isPlainChar, hchar.not_isBlank⟩

/-! ## Parts of a text -/

theorem Bracket.opening_plain (b : Bracket) :
    IsPlainChar b.opening ∧ b.opening.isBlank = false := by
  cases b <;> decide

theorem Bracket.closing_plain (b : Bracket) : IsPlainChar b.closing := by
  cases b <;> decide

/-- A part is a stretch, which white space does not begin when it may stand behind a colon. -/
def Part.Shape : Part → Text → Prop
  | .value => SolidStretch
  | _ => Stretch

theorem Part.Shape.stretch {part : Part} {t : Text} (h : part.Shape t) : Stretch t := by
  cases part with
  | value => exact SolidStretch.stretch h
  | member => exact h
  | inside b => exact h

/-- **Every part of a JSON text is a stretch,** however deep it nests. -/
theorem PartText.shape {part : Part} {pos : Nat} {t : Text} {ls : List Literal}
    (h : PartText part pos t ls) : part.Shape t := by
  induction h with
  | scalar hlit => exact hlit.solidStretch
  | @empty b _ w hw =>
    exact .plain b.opening_plain.1 b.opening_plain.2
      (hw.stretch.append (.plain b.closing_plain .nil))
  | @bracketed b _ w t _ hw _ ih =>
    exact .plain b.opening_plain.1 b.opening_plain.2 (hw.stretch.append ih)
  | member hname hw hw' _ ih =>
    simp only [List.append_assoc, List.cons_append]
    exact Stretch.name hname.isBody hw.allBlank hw'.allBlank ih
  | @last b _ t w _ _ hw ih =>
    exact ih.stretch.append (hw.stretch.append (.plain b.closing_plain .nil))
  | more _ hw hw' _ ih ih' =>
    rw [List.append_assoc]
    refine ih.stretch.append (Stretch.append ?_ ih')
    exact hw.stretch.append (.plain (by decide) hw'.stretch)

/-! ## Objects -/

/-- The texts of a value of any kind, as the strict reader reads them. -/
def ReadText : ValueGrammar := fun lit _ v =>
  ∃ depth rest, readValue depth (lit ++ rest) = .ok (v, rest)

theorem exists_readText {depth : Nat} (t : Text) (v : Json) (rest : Text)
    (h : readValue depth t = .ok (v, rest)) (_ : True) :
    ∃ lit raw, t = lit ++ rest ∧ ReadText lit raw v := by
  obtain ⟨lit, rfl, -⟩ := readsPart_readValue depth h
  exact ⟨lit, none, rfl, depth, rest, h⟩

theorem ReadText.solidStretch {lit : Text} {raw : Option Text} {v : Json}
    (h : ReadText lit raw v) : SolidStretch lit := by
  obtain ⟨depth, rest, hread⟩ := h
  obtain ⟨u, hu, hpart⟩ := readsPart_readValue depth hread
  obtain ⟨ls, hls⟩ := hpart 0
  rw [List.append_cancel_right hu]
  exact hls.shape

/-- **Every object that is parsed is written by the grammar of objects,** with any values. -/
theorem exists_objectText_of_parse {t : Text} {members : List (Text × Json)}
    (h : parse t = .ok (.object members)) :
    ∃ ms, ObjectText ReadText t ms ∧ members = collectMembers (ms.map Member.pair) := by
  obtain ⟨ws, hws, rfl⟩ := exists_written_of_parse h
  obtain ⟨ms, hms, rfl⟩ := exists_objectText exists_readText hws fun _ _ => trivial
  exact ⟨ms, hms, rfl⟩

theorem IsMember.stretch {m : Member} {t : Text} (h : IsMember ReadText m t) : Stretch t := by
  cases h with
  | mk hname hw₁ hw₂ hlit => exact .name hname.isBody hw₁.allBlank hw₂.allBlank hlit.solidStretch

/-- The name of a member stands at its offset, with a stretch before it and a colon behind it. -/
def Member.StandsIn (m : Member) (t before : Text) : Prop :=
  ∃ w u, t = before ++ (literal m.rawName ++ (w ++ .scalar ':' :: u)) ∧
    before.length = m.start ∧ Stretch before ∧ AllBlank w

theorem IsMember.standsIn {m : Member} {t before : Text} (h : IsMember ReadText m t)
    (hlength : before.length = m.start) (hbefore : Stretch before) (rest : Text) :
    m.StandsIn (before ++ (t ++ rest)) before := by
  cases h with
  | @mk w₁ w₂ lit _ hw₁ _ _ =>
    exact ⟨w₁, w₂ ++ lit ++ rest, by simp, hlength, hbefore, hw₁.allBlank⟩

theorem MembersText.standsIn {pos : Nat} {t : Text} {ms : List Member}
    (h : MembersText ReadText pos t ms) {before : Text} (hpos : before.length = pos)
    (hbefore : Stretch before) : ∀ m ∈ ms, ∃ b, m.StandsIn (before ++ t) b := by
  induction h generalizing before with
  | last hm _ _ => exact List.forall_mem_singleton.2 ⟨before, hm.standsIn hpos hbefore _⟩
  | @more m t w w' rest ms hm hw hw' _ ih =>
    refine List.forall_mem_cons.2 ⟨⟨before, ?_⟩, ?_⟩
    · rw [List.append_assoc]
      exact hm.standsIn hpos hbefore _
    · rw [← List.append_assoc]
      refine ih (by rw [List.length_append, hpos]) (hbefore.append (hm.stretch.append ?_))
      exact hw.stretch.append (.plain (by decide) hw'.stretch)

/-- **The name of every member stands in the text of the object,** whatever the values before it. -/
theorem ObjectText.standsIn {t : Text} {ms : List Member} (h : ObjectText ReadText t ms) :
    ∀ m ∈ ms, ∃ before, m.StandsIn t before := by
  cases h with
  | empty => exact List.forall_mem_nil _
  | members hw hw' hms =>
    exact hms.standsIn rfl (hw.stretch.append (.plain (by decide) hw'.stretch))

/-- At the offset of a member its name is read, and a colon stands behind it. -/
theorem ObjectText.quoted_drop {t : Text} {ms : List Member} (h : ObjectText ReadText t ms)
    {m : Member} (hm : m ∈ ms) :
    ∃ rest, quoted (t.drop m.start) = some (m.rawName, rest) ∧ BeginsWithColon rest := by
  obtain ⟨before, w, u, rfl, hlength, -, hw⟩ := h.standsIn m hm
  refine ⟨w ++ .scalar ':' :: u, ?_, ?_⟩
  · rw [← hlength, List.drop_left]
    exact quoted_literal_append (h.spells hm).isBody _
  · rw [beginsWithColon_append hw, beginsWithColon_cons colon_not_blank]

end LangFile.Json
