import LangFile.Proofs.Editor.History

/-!
# Reading the selection

A completion that comes late may put the cursor beyond the end of its line, so an editor need not be
well-formed in every state of an application. Its cursor and its anchor are always in rows that are
there, and that is enough to read what is selected.

1. The selected text can be read (`IsReadable.exists_selectedText`).
2. What keeps an editor readable.
3. A key that tells of no other selection leaves the selected text (`selectedText_of_pressKey`).
-/

namespace LangFile.Editor

variable {e e' : Editor} {k : KeyPress} {messages : List EditorMessage}

/-! ## Readable editors -/

/-- There is a line at the place. -/
def Buffer.HasRow (b : Buffer) (place : Cursor) : Prop := ∃ l, b.line place.row = .ok l

theorem Buffer.HasRow.of_lines_eq {b b' : Buffer} {place : Cursor} (h : b.HasRow place)
    (hlines : b'.lines = b.lines) : b'.HasRow place := by
  unfold HasRow line at h ⊢
  rwa [hlines]

theorem Buffer.HasRow.start {b : Buffer} (h : b.lines ≠ []) : b.HasRow ⟨0, 0⟩ :=
  ⟨_, b.line_natCast (List.length_pos_iff.2 h)⟩

theorem Buffer.HasRow.lines_ne_nil {b : Buffer} {place : Cursor} (h : b.HasRow place) :
    b.lines ≠ [] := by
  rintro hnil
  obtain ⟨l, hl⟩ := h
  simp [line, Offset.get?, hnil] at hl

/-- Both ends of the selection are in rows that are there. -/
structure IsReadable (e : Editor) : Prop where
  cursor : e.buffer.HasRow e.cursor
  anchor : ∀ place, e.anchor = some place → e.buffer.HasRow place

/-- Whatever stands between two rows that are there can be read. -/
theorem Buffer.exists_textBetween {b : Buffer} {s : Selection} (hfirst : b.HasRow s.first)
    (hlast : b.HasRow s.last) : ∃ t, b.textBetween s = .ok t := by
  obtain ⟨first, hfirst⟩ := hfirst
  obtain ⟨last, hlast⟩ := hlast
  unfold textBetween
  rw [hfirst, hlast]
  by_cases hrow : s.first.row = s.last.row
  · exact ⟨_, if_pos hrow⟩
  · exact ⟨_, if_neg hrow⟩

theorem IsReadable.hasRow_of_selection? (h : e.IsReadable) {s : Selection}
    (hs : e.selection? = some s) : e.buffer.HasRow s.first ∧ e.buffer.HasRow s.last := by
  unfold selection? at hs
  cases hanchor : e.anchor with
  | none =>
    rw [hanchor] at hs
    simp at hs
  | some place =>
    have hplace := h.anchor place hanchor
    rw [hanchor] at hs
    dsimp only at hs
    split at hs
    · simp at hs
    · split at hs
      · obtain rfl := Option.some.inj hs
        exact ⟨hplace, h.cursor⟩
      · obtain rfl := Option.some.inj hs
        exact ⟨h.cursor, hplace⟩

/-- What is selected is a matter of text, cursor and anchor. -/
theorem selectedText_congr (hbuffer : e'.buffer = e.buffer) (hanchor : e'.anchor = e.anchor) :
    e'.selectedText = e.selectedText := by
  unfold selectedText selection? Editor.cursor
  rw [hbuffer, hanchor]

theorem selectedText_of_anchor_eq_none (hnone : e.anchor = none) : e.selectedText = .ok [] := by
  unfold selectedText selection?
  rw [hnone]

/-- **What is selected can be read.** -/
theorem IsReadable.exists_selectedText (h : e.IsReadable) : ∃ t, e.selectedText = .ok t := by
  unfold selectedText
  split
  · next s hs =>
    obtain ⟨hfirst, hlast⟩ := h.hasRow_of_selection? hs
    exact Buffer.exists_textBetween hfirst hlast
  · exact ⟨[], rfl⟩

/-! ## What keeps an editor readable -/

theorem IsReadable.of_eq (h : e.IsReadable) (hbuffer : e'.buffer = e.buffer)
    (hanchor : e'.anchor = e.anchor) : e'.IsReadable where
  cursor := by
    unfold Editor.cursor
    rw [hbuffer]
    exact h.cursor
  anchor place hplace := by
    rw [hbuffer]
    exact h.anchor place (hanchor ▸ hplace)

/-- Nothing is selected, and the cursor is in a row that is there. -/
theorem IsReadable.of_anchor_eq_none (hcursor : e.buffer.HasRow e.cursor) (hnone : e.anchor = none) :
    e.IsReadable where
  cursor := hcursor
  anchor place hplace := by
    rw [hnone] at hplace
    simp at hplace

theorem isReadable_loadText (e : Editor) (t : Text) : (e.loadText t).IsReadable :=
  .of_anchor_eq_none (.start (Buffer.isSound_ofText t).lines_ne_nil) rfl

theorem isReadable_ofDocument (d : Document) (column : Int) :
    (ofDocument d column).IsReadable :=
  .of_anchor_eq_none (.start (Buffer.isSound_ofText d.text).lines_ne_nil) rfl

theorem Buffer.hasRow_of_clamp {b b' : Buffer} (h : b.clamp = .ok b') : b'.HasRow b'.cursor := by
  unfold clamp at h
  obtain ⟨l, hl, h⟩ := exists_of_bind h
  obtain rfl := Except.ok.inj h
  exact ⟨l, hl⟩

/-- A line is set where there is one. -/
theorem Buffer.hasRow_of_replaceColumns {b b' : Buffer} {row start stop : Int} {t : Text}
    (h : b.replaceColumns row start stop t = .ok b') : b'.HasRow b'.cursor := by
  obtain ⟨l, hl, h⟩ := exists_of_bind h
  obtain rfl := Except.ok.inj h
  unfold line Offset.get? at hl
  cases hplace : Offset.element? b.lines.length row with
  | none => simp [hplace] at hl
  | some place =>
    refine ⟨Offset.before l start ++ t ++ Offset.after l stop, ?_⟩
    simp [line, Offset.get?, setLine, moveTo, Offset.set, hplace, Offset.element?_lt hplace]

theorem IsReadable.replaceColumns (h : e.IsReadable) {row start stop : Int} {t : Text}
    (hreplaced : e.replaceColumns row start stop t = .ok e') : e'.IsReadable := by
  unfold Editor.replaceColumns at hreplaced
  split at hreplaced
  · obtain rfl := Except.ok.inj hreplaced
    exact h.of_eq rfl rfl
  · obtain ⟨buffer, hbuffer, rfl⟩ := exists_of_map hreplaced
    exact .of_anchor_eq_none (Buffer.hasRow_of_replaceColumns hbuffer) rfl

/-! ## Keys -/

theorem anchor_of_deleteOr {change : Buffer → Except Fault (Option Buffer)}
    (h : e.deleteOr change = .ok e') : e'.anchor = none := by
  rw [deleteOr_eq] at h
  split at h
  · obtain ⟨buffer, -, rfl⟩ := exists_of_map h
    rfl
  · obtain ⟨removed, -, rfl⟩ := exists_of_map h
    cases removed <;> rfl

theorem anchor_of_insert {t : Text} (h : e.insert t = .ok e') : e'.anchor = none := by
  obtain ⟨prepared, hprepared, h⟩ := exists_of_bind h
  obtain ⟨inserted, -, h⟩ := exists_of_bind h
  obtain ⟨buffer, rfl⟩ := exists_edited_of_prepareInsertion hprepared
  obtain rfl := Except.ok.inj h
  rfl

theorem anchor_of_breakLine (h : e.breakLine = .ok e') : e'.anchor = none := by
  obtain ⟨prepared, hprepared, h⟩ := exists_of_bind h
  obtain ⟨broken, -, h⟩ := exists_of_bind h
  obtain ⟨buffer, rfl⟩ := exists_edited_of_prepareInsertion hprepared
  obtain rfl := Except.ok.inj h
  rfl

/-- After a key nothing is selected, or the selection begins where it began, where the cursor was, or
at the start of the text. -/
theorem anchor_of_perform {status : Text} (h : { e with status }.perform k = .ok e') :
    e'.anchor = none ∨ e'.anchor = e.anchor ∨ e'.anchor = some e.cursor ∨
      e'.anchor = some ⟨0, 0⟩ := by
  have hedit {change : Editor → Except Fault Editor} (h : { e with status }.edit change = .ok e')
      (hchange : ∀ {e₁ : Editor}, change e₁ = .ok e' → e'.anchor = none) :
      e'.anchor = none ∨ e'.anchor = e.anchor ∨ e'.anchor = some e.cursor ∨
        e'.anchor = some ⟨0, 0⟩ := by
    unfold Editor.edit at h
    split at h
    · obtain rfl := Except.ok.inj h
      exact Or.inr (Or.inl rfl)
    · exact Or.inl (hchange h)
  unfold Editor.perform at h
  split at h
  · obtain ⟨buffer, -, rfl⟩ := exists_of_map h
    cases hanchor : e.anchor with
    | none => exact Or.inr (Or.inr (Or.inl rfl))
    | some place => exact Or.inr (Or.inl rfl)
  · obtain ⟨buffer, -, rfl⟩ := exists_of_map h
    exact Or.inl rfl
  · obtain rfl := Except.ok.inj h
    exact Or.inl rfl
  · obtain ⟨l, -, rfl⟩ := exists_of_map h
    exact Or.inr (Or.inr (Or.inr rfl))
  · obtain rfl := Except.ok.inj h
    unfold undoEdit
    split
    · exact Or.inr (Or.inl rfl)
    · exact Or.inl rfl
  · obtain rfl := Except.ok.inj h
    unfold redoEdit
    split
    · exact Or.inr (Or.inl rfl)
    · exact Or.inl rfl
  · exact hedit h anchor_of_deleteOr
  · exact hedit h anchor_of_deleteOr
  · exact hedit h anchor_of_breakLine
  · exact hedit h anchor_of_insert
  · split at h
    · exact hedit h anchor_of_insert
    · obtain rfl := Except.ok.inj h
      exact Or.inr (Or.inl rfl)

/-- A key that changes the text leaves nothing selected. -/
theorem Pressed.lines_eq_or_anchor_eq_none (h : Pressed k e e') :
    e'.buffer.lines = e.buffer.lines ∨ e'.anchor = none := by
  cases h with
  | passed buffer anchor status top hlines => exact Or.inl hlines
  | edited => exact Or.inr rfl
  | undone _ _ _ hundo => rw [undoEdit_of_cons hundo]; exact Or.inr rfl
  | redone _ _ _ hredo => rw [redoEdit_of_cons hredo]; exact Or.inr rfl

/-- **A key leaves an editor readable.** -/
theorem IsReadable.pressKey (h : e.IsReadable) (hpress : e.pressKey k = .ok (e', messages)) :
    e'.IsReadable := by
  have hpressed := pressed_of_pressKey hpress
  obtain ⟨performed, buffer, top, -, hperform, hclamp, rfl, -⟩ := exists_of_pressKey hpress
  have hcursor := Buffer.hasRow_of_clamp hclamp
  refine ⟨hcursor, fun place hplace => ?_⟩
  have hlines : buffer.lines = e.buffer.lines := by
    rcases hpressed.lines_eq_or_anchor_eq_none with hlines | hnone
    · exact hlines
    · rw [hnone] at hplace
      simp at hplace
  have hanchor : performed.anchor = some place := hplace
  rcases anchor_of_perform hperform with hnone | hsame | hhere | hstart
  · rw [hnone] at hanchor
    simp at hanchor
  · exact (h.anchor place (hsame ▸ hanchor)).of_lines_eq hlines
  · obtain rfl := Option.some.inj (hhere.symm.trans hanchor)
    exact h.cursor.of_lines_eq hlines
  · obtain rfl := Option.some.inj (hstart.symm.trans hanchor)
    exact .start (hlines ▸ h.cursor.lines_ne_nil)

/-- It tells that the selection changed when cursor or anchor say so. -/
theorem selectionChanged_mem_iff (h : e.pressKey k = .ok (e', messages)) :
    .selectionChanged ∈ messages ↔ ¬(e'.cursor = e.cursor ∧ e'.anchor = e.anchor) := by
  obtain ⟨_, _, _, wanted, _, _, _, rfl, hwanted⟩ := exists_of_pressKey h
  have hnot : .selectionChanged ∉ wanted := fun hmem => by
    obtain ⟨_, _, hm, _⟩ := hwanted _ hmem
    simp at hm
  have htext : .selectionChanged ∉ (if e'.version = e.version then [] else
      [EditorMessage.textChanged]) := by split <;> simp
  have hscroll : .selectionChanged ∉ (if e'.top = e.top then [] else
      [EditorMessage.scrolled e'.top]) := by split <;> simp
  unfold changes
  simp only [List.mem_append, hnot, htext, hscroll, false_or, or_false]
  by_cases hsame : e'.cursor = e.cursor ∧ e'.anchor = e.anchor <;> simp [hsame]

/-- **A key that tells of no other selection leaves the selected text.** -/
theorem selectedText_of_pressKey (h : e.pressKey k = .ok (e', messages))
    (hnot : .selectionChanged ∉ messages) : e'.selectedText = e.selectedText := by
  obtain ⟨hcursor, hanchor⟩ := not_not.1 (hnot ∘ (selectionChanged_mem_iff h).2)
  rcases (pressed_of_pressKey h).lines_eq_or_anchor_eq_none with hlines | hnone
  · have hbuffer : e'.buffer = e.buffer := by
      show Buffer.mk e'.buffer.lines e'.cursor = _
      rw [hlines, hcursor]
      rfl
    exact selectedText_congr hbuffer hanchor
  · rw [selectedText_of_anchor_eq_none hnone,
      selectedText_of_anchor_eq_none (hanchor.symm.trans hnone)]

end LangFile.Editor
