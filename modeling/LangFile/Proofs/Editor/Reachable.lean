import LangFile.Editor.Keys
import LangFile.Editor.Screen
import LangFile.Proofs.Editor.Around

/-!
# The states of an editor

Whatever is done to an editor, its text has lines without line feeds, and the cursor, the other end
of the selection and every former cursor stand inside their text. So no key press fails.

1. Results that are there and have a property (`Yields`).
2. Sound buffers, and that changes keep them sound.
3. Well-formed editors, and that every key press leads from one to another (`yields_pressKey`).
4. All states that an editor reaches are well-formed (`Reachable.isWellFormed`).
-/

namespace LangFile.Editor

/-! ## Results -/

section

variable {α β : Type} {P : α → Prop} {Q : β → Prop}

/-- There is a result, and it has the property. -/
def Yields (P : α → Prop) (x : Except Fault α) : Prop := ∃ a, x = .ok a ∧ P a

/-- One step after another has a result only through a result of the first. -/
theorem exists_of_bind {x : Except Fault α} {f : α → Except Fault β} {r : β}
    (h : x >>= f = .ok r) : ∃ a, x = .ok a ∧ f a = .ok r := by
  cases x with
  | error fault => injection h
  | ok a => exact ⟨a, rfl, h⟩

namespace Yields

theorem ok {a : α} (h : P a) : Yields P (.ok a) := ⟨a, rfl, h⟩

theorem bind {x : Except Fault α} {f : α → Except Fault β} (hx : Yields P x)
    (hf : ∀ a, P a → Yields Q (f a)) : Yields Q (x >>= f) := by
  obtain ⟨a, rfl, ha⟩ := hx
  exact hf a ha

theorem map {x : Except Fault α} {f : α → β} (hx : Yields P x) (hf : ∀ a, P a → Q (f a)) :
    Yields Q (x.map f) := by
  obtain ⟨a, rfl, ha⟩ := hx
  exact ok (hf a ha)

end Yields

end

/-! ## Sound buffers -/

/-- No line holds a line feed, and the cursor stands inside the text, which has a line at least. -/
structure Buffer.IsSound (b : Buffer) : Prop where
  lines_ne_nil : b.lines ≠ []
  lines : ∀ l ∈ b.lines, .scalar '\n' ∉ l
  cursor : b.Holds b.cursor

namespace Buffer

variable {b b' : Buffer} {p q : Cursor} {above below : List Text} {left right : Text}

theorem Holds.lines_ne_nil (h : b.Holds p) : b.lines ≠ [] := by
  obtain ⟨_, _, hrow, _⟩ := h
  exact List.ne_nil_of_length_pos (Nat.zero_lt_of_lt hrow)

theorem Holds.of_lines_eq (h : b.Holds p) (hlines : b'.lines = b.lines) : b'.Holds p := by
  unfold Holds
  rw [hlines]
  exact h

theorem holds_start (h : b.lines ≠ []) : b.Holds ⟨0, 0⟩ :=
  ⟨0, 0, List.length_pos_iff.2 h, rfl, Nat.zero_le _⟩

/-- No line holds a line feed when none of the parts does. -/
theorem forall_lines_iff (h : Parts b.lines p above left right below) :
    (∀ l ∈ b.lines, .scalar '\n' ∉ l) ↔
      (∀ l ∈ above, .scalar '\n' ∉ l) ∧ (.scalar '\n' ∉ left ∧ .scalar '\n' ∉ right) ∧
        ∀ l ∈ below, .scalar '\n' ∉ l := by
  rw [h.lines_eq]
  simp only [List.mem_append, List.mem_cons, or_imp, forall_and, forall_eq, not_or]

theorem isSound_around_iff : (around above left right below).IsSound ↔
    (∀ l ∈ above, .scalar '\n' ∉ l) ∧ (.scalar '\n' ∉ left ∧ .scalar '\n' ∉ right) ∧
      ∀ l ∈ below, .scalar '\n' ∉ l := by
  have hlines := forall_lines_iff (parts_around above left right below)
  have hcursor := holds_cursor_around above left right below
  exact ⟨fun h => hlines.1 h.lines, fun h => ⟨hcursor.lines_ne_nil, hlines.2 h, hcursor⟩⟩

theorem isSound_ofText (t : Text) : (ofText t).IsSound where
  lines_ne_nil := Text.splitOn_ne_nil _ t
  lines _ hl := Text.not_mem_of_mem_splitOn hl
  cursor := holds_start (Text.splitOn_ne_nil _ t)

namespace IsSound

/-- Some buffer stands around the cursor, and no part of it holds a line feed. -/
theorem exists_around (h : b.IsSound) : ∃ above left right below,
    b = around above left right below ∧ (∀ l ∈ above, .scalar '\n' ∉ l) ∧
      (.scalar '\n' ∉ left ∧ .scalar '\n' ∉ right) ∧ ∀ l ∈ below, .scalar '\n' ∉ l := by
  obtain ⟨above, left, right, below, rfl⟩ := exists_eq_around h.cursor
  exact ⟨above, left, right, below, rfl, isSound_around_iff.1 h⟩

theorem insert (h : b.IsSound) {t : Text} (ht : .scalar '\n' ∉ t) :
    Yields IsSound (b.insert t) := by
  obtain ⟨above, left, right, below, rfl, habove, ⟨hleft, hright⟩, hbelow⟩ := h.exists_around
  rw [insert_around]
  exact Yields.ok (isSound_around_iff.2 ⟨habove, ⟨by simp [hleft, ht], hright⟩, hbelow⟩)

theorem breakLine (h : b.IsSound) : Yields IsSound b.breakLine := by
  obtain ⟨above, left, right, below, rfl, habove, ⟨hleft, hright⟩, hbelow⟩ := h.exists_around
  rw [breakLine_around]
  have hrest : .scalar '\n' ∉ Text.trimLeft right :=
    fun hmem => hright ((List.dropWhile_sublist _).subset hmem)
  refine Yields.ok (isSound_around_iff.2 ⟨?_, ⟨?_, hrest⟩, hbelow⟩)
  · simpa [or_imp, forall_and] using ⟨habove, hleft⟩
  · exact fun hmem => absurd (List.eq_of_mem_replicate hmem) (by decide)

theorem backspace? (h : b.IsSound) :
    Yields (fun r => ∀ b' ∈ r, IsSound b') b.backspace? := by
  obtain ⟨above, left, right, below, rfl, habove, ⟨hleft, hright⟩, hbelow⟩ := h.exists_around
  rcases List.eq_nil_or_concat' left with rfl | ⟨left, c, rfl⟩
  · rcases List.eq_nil_or_concat' above with rfl | ⟨above, l, rfl⟩
    · rw [backspace?_start]
      exact Yields.ok fun b' hb' => absurd hb' (by simp)
    · rw [backspace?_feed]
      refine Yields.ok fun b' hb' => ?_
      obtain rfl := Option.mem_some.1 hb'
      simp only [List.mem_append, List.mem_singleton, or_imp, forall_and, forall_eq] at habove
      exact isSound_around_iff.2 ⟨habove.1, ⟨habove.2, hright⟩, hbelow⟩
  · rw [backspace?_char]
    refine Yields.ok fun b' hb' => ?_
    obtain rfl := Option.mem_some.1 hb'
    simp only [List.mem_append, not_or] at hleft
    exact isSound_around_iff.2 ⟨habove, ⟨hleft.1, hright⟩, hbelow⟩

theorem delete? (h : b.IsSound) : Yields (fun r => ∀ b' ∈ r, IsSound b') b.delete? := by
  obtain ⟨above, left, right, below, rfl, habove, ⟨hleft, hright⟩, hbelow⟩ := h.exists_around
  cases right with
  | nil =>
    cases below with
    | nil =>
      rw [delete?_end]
      exact Yields.ok fun b' hb' => absurd hb' (by simp)
    | cons l below =>
      rw [delete?_feed]
      refine Yields.ok fun b' hb' => ?_
      obtain rfl := Option.mem_some.1 hb'
      simp only [List.mem_cons, or_imp, forall_and, forall_eq] at hbelow
      exact isSound_around_iff.2 ⟨habove, ⟨hleft, hbelow.1⟩, hbelow.2⟩
  | cons c right =>
    rw [delete?_char]
    refine Yields.ok fun b' hb' => ?_
    obtain rfl := Option.mem_some.1 hb'
    simp only [List.mem_cons, not_or] at hright
    exact isSound_around_iff.2 ⟨habove, ⟨hleft, hright.2⟩, hbelow⟩

theorem removeBetween (h : b.IsSound) (hp : b.Holds p) (hq : b.Holds q) (hle : p.le q = true) :
    Yields IsSound (b.removeBetween ⟨p, q⟩) := by
  obtain ⟨_, _, _, _, hp⟩ := holds_iff_exists_parts.1 hp
  obtain ⟨_, _, _, _, hq⟩ := holds_iff_exists_parts.1 hq
  obtain ⟨habove, ⟨hleft, -⟩, -⟩ := (forall_lines_iff hp).1 h.lines
  obtain ⟨-, ⟨-, hright⟩, hbelow⟩ := (forall_lines_iff hq).1 h.lines
  rw [removeBetween_of_parts hp hq hle]
  exact Yields.ok (isSound_around_iff.2 ⟨habove, ⟨hleft, hright⟩, hbelow⟩)

theorem replaceColumns (h : b.IsSound) (hp : b.Holds p) (hq : b.Holds q) (hrow : p.row = q.row)
    {t : Text} (ht : .scalar '\n' ∉ t) :
    Yields IsSound (b.replaceColumns p.row p.column q.column t) := by
  obtain ⟨_, _, _, _, hp⟩ := holds_iff_exists_parts.1 hp
  obtain ⟨_, _, _, _, hq⟩ := holds_iff_exists_parts.1 hq
  obtain ⟨habove, ⟨hleft, -⟩, hbelow⟩ := (forall_lines_iff hp).1 h.lines
  obtain ⟨-, ⟨-, hright⟩, -⟩ := (forall_lines_iff hq).1 h.lines
  rw [replaceColumns_of_parts hp hq hrow]
  exact Yields.ok (isSound_around_iff.2 ⟨habove, ⟨by simp [hleft, ht], hright⟩, hbelow⟩)

theorem move (h : b.IsSound) (page : Nat) (m : Motion) :
    Yields (fun b' => b'.lines = b.lines ∧ b'.IsSound) (b.move page m) := by
  obtain ⟨b', hmove, hlines, hcursor⟩ := exists_move page h.cursor m
  rw [hmove]
  exact Yields.ok ⟨hlines, hlines ▸ h.lines_ne_nil, hlines ▸ h.lines, hcursor⟩

end IsSound

end Buffer

end LangFile.Editor

namespace LangFile

open Editor

/-- A key types no line feed, which is not printable. -/
theorem KeyPress.ne_of_mem_typed (name : Text) (produced : Option Text) :
    ∀ c ∈ (KeyPress.ofName name produced).typed, c ≠ .scalar '\n' := by
  intro c hc
  unfold KeyPress.ofName at hc
  dsimp only at hc
  split at hc
  · split at hc
    · next hprintable =>
      obtain rfl := Option.mem_some.1 hc
      rintro rfl
      revert hprintable
      decide +kernel
    · simp at hc
  · simp at hc

namespace Editor

/-! ## Well-formed editors -/

variable {e e' : Editor}

/-- The buffer and every former one are sound, the selection ends inside the buffer, and at most 200
former buffers are kept. -/
structure IsWellFormed (e : Editor) : Prop where
  buffer : e.buffer.IsSound
  anchor : ∀ a, e.anchor = some a → e.buffer.Holds a
  history : ∀ b ∈ e.undo ++ e.redo, b.IsSound
  history_le : e.undo.length + e.redo.length ≤ 200

namespace IsWellFormed

theorem of_eq (h : e.IsWellFormed) (hbuffer : e'.buffer = e.buffer) (hanchor : e'.anchor = e.anchor)
    (hundo : e'.undo = e.undo) (hredo : e'.redo = e.redo) : e'.IsWellFormed where
  buffer := hbuffer ▸ h.buffer
  anchor := by
    rw [hbuffer, hanchor]
    exact h.anchor
  history := by
    rw [hundo, hredo]
    exact h.history
  history_le := by
    rw [hundo, hredo]
    exact h.history_le

/-- Another buffer, when nothing is selected. -/
theorem withBuffer (h : e.IsWellFormed) {b : Buffer} (hb : b.IsSound)
    (hbuffer : e'.buffer = b) (hanchor : e'.anchor = none)
    (hundo : e'.undo = e.undo) (hredo : e'.redo = e.redo) : e'.IsWellFormed where
  buffer := hbuffer ▸ hb
  anchor a ha := by simp [hanchor] at ha
  history := by
    rw [hundo, hredo]
    exact h.history
  history_le := by
    rw [hundo, hredo]
    exact h.history_le

theorem edited (h : e.IsWellFormed) {b : Buffer} (hb : b.IsSound) : (e.edited b).IsWellFormed where
  buffer := hb
  anchor _ ha := by simp [Editor.edited] at ha
  history b' hb' := by
    have hmem : b' ∈ (e.buffer :: e.undo).take historyLimit := by
      simpa [Editor.edited, saveHistory, touch] using hb'
    rcases List.mem_cons.1 (List.mem_of_mem_take hmem) with rfl | hold
    · exact h.buffer
    · exact h.history b' (List.mem_append_left _ hold)
  history_le := by
    have hle : ((e.buffer :: e.undo).take historyLimit).length ≤ 200 := List.length_take_le _ _
    simpa [Editor.edited, saveHistory, touch] using hle

theorem undoEdit (h : e.IsWellFormed) : e.undoEdit.IsWellFormed := by
  have hhistory := h.history
  have hle := h.history_le
  unfold Editor.undoEdit
  cases hundo : e.undo with
  | nil => exact h.of_eq rfl rfl hundo.symm rfl
  | cons b rest =>
    rw [hundo] at hhistory hle
    refine ⟨hhistory b (by simp), fun a ha => by simp [touch] at ha, fun b' hb' => ?_, ?_⟩
    · have hmem : b' ∈ rest ∨ b' = e.buffer ∨ b' ∈ e.redo := by simpa [touch] using hb'
      rcases hmem with hrest | rfl | hredo
      · exact hhistory b' (by simp [hrest])
      · exact h.buffer
      · exact hhistory b' (by simp [hredo])
    · simp only [touch, List.length_cons] at hle ⊢
      omega

theorem redoEdit (h : e.IsWellFormed) : e.redoEdit.IsWellFormed := by
  have hhistory := h.history
  have hle := h.history_le
  unfold Editor.redoEdit
  cases hredo : e.redo with
  | nil => exact h.of_eq rfl rfl rfl hredo.symm
  | cons b rest =>
    rw [hredo] at hhistory hle
    refine ⟨hhistory b (by simp), fun a ha => by simp [touch] at ha, fun b' hb' => ?_, ?_⟩
    · have hmem : b' = e.buffer ∨ b' ∈ e.undo ∨ b' ∈ rest := by simpa [touch, or_assoc] using hb'
      rcases hmem with rfl | hundo | hrest
      · exact h.buffer
      · exact hhistory b' (by simp [hundo])
      · exact hhistory b' (by simp [hrest])
    · simp only [touch, List.length_cons] at hle ⊢
      omega

end IsWellFormed

/-! ## The selected text -/

/-- From where to where the selection reaches; it may be empty. -/
def bounds (e : Editor) : Selection := e.selection?.getD ⟨e.cursor, e.cursor⟩

theorem bounds_eq (e : Editor) :
    e.selection? = none ∧ e.bounds = ⟨e.cursor, e.cursor⟩ ∨
    ∃ a, e.anchor = some a ∧ a ≠ e.cursor ∧ e.selection? = some e.bounds ∧
      (a.le e.cursor = true ∧ e.bounds = ⟨a, e.cursor⟩ ∨
        e.cursor.le a = true ∧ e.bounds = ⟨e.cursor, a⟩) := by
  unfold bounds selection?
  cases ha : e.anchor with
  | none => exact Or.inl ⟨rfl, rfl⟩
  | some a =>
    dsimp only
    split
    · exact Or.inl ⟨rfl, rfl⟩
    · next hne =>
      split
      · next hle => exact Or.inr ⟨a, rfl, hne, rfl, Or.inl ⟨hle, rfl⟩⟩
      · next hnot =>
        exact Or.inr ⟨a, rfl, hne, rfl, Or.inr ⟨(Cursor.le_total _ _).resolve_left hnot, rfl⟩⟩

/-- Both ends of the selection are inside the buffer, in order. -/
theorem IsWellFormed.bounds (h : e.IsWellFormed) : e.buffer.Holds e.bounds.first ∧
    e.buffer.Holds e.bounds.last ∧ e.bounds.first.le e.bounds.last = true := by
  have hcursor : e.buffer.Holds e.cursor := h.buffer.cursor
  have hrefl := e.cursor.le_refl
  rcases e.bounds_eq with ⟨-, hb⟩ | ⟨a, ha, -, -, ⟨hle, hb⟩ | ⟨hle, hb⟩⟩ <;> rw [hb]
  · exact ⟨hcursor, hcursor, hrefl⟩
  · exact ⟨h.anchor a ha, hcursor, hle⟩
  · exact ⟨hcursor, h.anchor a ha, hle⟩

/-- To make room for new text is to take out what is selected, if only nothing. -/
theorem prepareInsertion_eq (h : e.buffer.Holds e.cursor) :
    e.prepareInsertion = (e.buffer.removeBetween e.bounds).map e.edited := by
  unfold prepareInsertion deleteSelection? bounds
  cases hsel : e.selection? with
  | some s =>
    rw [Option.getD_some]
    show (Except.map _ (Except.map _ (e.buffer.removeBetween s))) = _
    cases e.buffer.removeBetween s <;> rfl
  | none =>
    obtain ⟨above, left, right, below, hparts⟩ := Buffer.holds_iff_exists_parts.1 h
    have hrefl := e.cursor.le_refl
    rw [Option.getD_none, Buffer.removeBetween_of_parts hparts hparts hrefl,
      ← Buffer.eq_around hparts]
    rfl

/-- Without a selection it is the change that takes out something. -/
theorem deleteOr_eq (e : Editor) (change : Buffer → Except Fault (Option Buffer)) :
    e.deleteOr change = match e.selection? with
      | some s => (e.buffer.removeBetween s).map e.edited
      | none => (change e.buffer).map fun r =>
          (r.map e.edited).getD { e with anchor := none } := by
  unfold deleteOr deleteSelection?
  cases hsel : e.selection? with
  | some s =>
    dsimp only
    cases e.buffer.removeBetween s <;> rfl
  | none =>
    show (change e.buffer >>= _) = _
    cases hchange : change e.buffer with
    | error fault => rfl
    | ok r => cases r <;> rfl

namespace IsWellFormed

theorem prepareInsertion (h : e.IsWellFormed) :
    Yields (fun e' => e'.IsWellFormed ∧ e'.anchor = none) e.prepareInsertion := by
  obtain ⟨hfirst, hlast, hle⟩ := h.bounds
  rw [prepareInsertion_eq h.buffer.cursor]
  exact (h.buffer.removeBetween hfirst hlast hle).map fun b hb => ⟨h.edited hb, rfl⟩

theorem insert (h : e.IsWellFormed) {t : Text} (ht : .scalar '\n' ∉ t) :
    Yields IsWellFormed (e.insert t) :=
  h.prepareInsertion.bind fun _ he' => (he'.1.buffer.insert ht).bind fun _ hb =>
    Yields.ok (he'.1.withBuffer hb rfl he'.2 rfl rfl)

theorem breakLine (h : e.IsWellFormed) : Yields IsWellFormed e.breakLine :=
  h.prepareInsertion.bind fun _ he' => he'.1.buffer.breakLine.bind fun _ hb =>
    Yields.ok (he'.1.withBuffer hb rfl he'.2 rfl rfl)

theorem deleteOr (h : e.IsWellFormed) {change : Buffer → Except Fault (Option Buffer)}
    (hchange : Yields (fun r => ∀ b ∈ r, Buffer.IsSound b) (change e.buffer)) :
    Yields IsWellFormed (e.deleteOr change) := by
  obtain ⟨hfirst, hlast, hle⟩ := h.bounds
  rw [deleteOr_eq]
  unfold Editor.bounds at hfirst hlast hle
  cases hsel : e.selection? with
  | some s =>
    rw [hsel] at hfirst hlast hle
    exact (h.buffer.removeBetween hfirst hlast hle).map fun b hb => h.edited hb
  | none =>
    refine hchange.map fun r hr => ?_
    cases r with
    | none => exact h.withBuffer h.buffer rfl rfl rfl rfl
    | some b => exact h.edited (hr b rfl)

/-- A motion keeps what is selected inside the buffer. -/
theorem move (h : e.IsWellFormed) (m : Motion) : Yields IsWellFormed (e.move m) := by
  refine (h.buffer.move e.visibleHeight m).map fun b hb => ⟨hb.2, fun a ha => ?_, h.history,
    h.history_le⟩
  exact (h.anchor a ha).of_lines_eq hb.1

theorem withAnchor (h : e.IsWellFormed) {anchor : Option Cursor}
    (hanchor : ∀ a, anchor = some a → e.buffer.Holds a) :
    IsWellFormed { e with anchor } :=
  ⟨h.buffer, hanchor, h.history, h.history_le⟩

theorem selectAll (h : e.IsWellFormed) : Yields IsWellFormed e.selectAll := by
  have hlines := List.length_pos_iff.2 h.buffer.lines_ne_nil
  have hlast : e.buffer.lastRow < e.buffer.lines.length := by
    unfold Buffer.lastRow
    omega
  unfold Editor.selectAll
  dsimp only
  rw [Buffer.line_natCast _ hlast]
  refine Yields.ok ⟨⟨h.buffer.lines_ne_nil, h.buffer.lines, ?_⟩, fun a ha => ?_, h.history,
    h.history_le⟩
  · exact ⟨_, _, hlast, rfl, Nat.le_refl _⟩
  · obtain rfl := Option.some.inj ha
    exact Buffer.holds_start h.buffer.lines_ne_nil

theorem edit (h : e.IsWellFormed) {change : Editor → Except Fault Editor}
    (hchange : Yields IsWellFormed (change e)) : Yields IsWellFormed (e.edit change) := by
  unfold Editor.edit
  split
  · exact Yields.ok (h.of_eq rfl rfl rfl rfl)
  · exact hchange

/-- **What a key does,** one case for each key. -/
theorem perform (h : e.IsWellFormed) {k : KeyPress} (htyped : ∀ c ∈ k.typed, c ≠ .scalar '\n') :
    Yields IsWellFormed (e.perform k) := by
  unfold Editor.perform
  cases k.key with
  | move m select =>
    cases select with
    | true =>
      refine (h.withAnchor fun a ha => ?_).move m
      obtain rfl := Option.some.inj ha
      cases hanchor : e.anchor with
      | none => exact h.buffer.cursor
      | some a => exact h.anchor a hanchor
    | false => exact (h.withAnchor fun a ha => absurd ha (by simp)).move m
  | escape => exact Yields.ok (h.withAnchor fun a ha => absurd ha (by simp))
  | selectAll => exact h.selectAll
  | undo => exact Yields.ok h.undoEdit
  | redo => exact Yields.ok h.redoEdit
  | backspace => exact h.edit (h.deleteOr h.buffer.backspace?)
  | delete => exact h.edit (h.deleteOr h.buffer.delete?)
  | enter => exact h.edit h.breakLine
  | tab => exact h.edit (h.insert (by decide))
  | other =>
    cases hc : k.typed with
    | none => exact Yields.ok h
    | some c => exact h.edit (h.insert (by simpa using (htyped c hc).symm))

end IsWellFormed

/-- When a key leaves the cursor inside the buffer, nothing but the scroll position is put right
after it. -/
theorem exists_pressKey {k : KeyPress} (hpress : { e with status := [] }.perform k = .ok e')
    (hcursor : e'.buffer.Holds e'.cursor) :
    ∃ top messages, e.pressKey k = .ok ({ e' with top }, messages) := by
  obtain ⟨above, left, right, below, hparts⟩ := Buffer.holds_iff_exists_parts.1 hcursor
  have hbefore (shown : Editor) (hbuffer : shown.buffer = e'.buffer) :
      shown.before e'.cursor = .ok (Offset.before (left ++ right) e'.cursor.column) := by
    unfold before
    rw [hbuffer, Buffer.line_of_parts hparts]
    rfl
  -- what is completed stands at the cursor, so that the line before it is there
  have hplace : ∃ place, e'.completionPlace? k = .ok place ∧ ∀ p ∈ place, p = e'.cursor := by
    unfold completionPlace?
    rw [hbefore e' rfl]
    split
    · refine ⟨_, rfl, fun p hp => ?_⟩
      dsimp only at hp
      split at hp
      · exact (Option.mem_some.1 hp).symm
      · simp at hp
    · exact ⟨none, rfl, by simp⟩
  obtain ⟨place, hplace, hcompletion⟩ := hplace
  have hshown : ∃ top, (if 0 < e'.textWidth then e'.showCursor e'.textWidth else e')
      = { e' with top } := by
    split
    · exact ⟨_, rfl⟩
    · exact ⟨e'.top, rfl⟩
  obtain ⟨top, hshown⟩ := hshown
  unfold pressKey
  rw [hpress]
  simp only [bind, Except.bind, pure, Except.pure, hplace, Buffer.clamp_of_holds hcursor]
  rw [hshown]
  cases place with
  | none => exact ⟨top, _, rfl⟩
  | some p =>
    obtain rfl := hcompletion p rfl
    dsimp only
    rw [hbefore { e' with top } rfl]
    exact ⟨top, _, rfl⟩

/-- **Every key press leads to a well-formed editor.** -/
theorem yields_pressKey (h : e.IsWellFormed) (name : Text) (produced : Option Text) :
    Yields (fun r => r.1.IsWellFormed) (e.pressKey (.ofName name produced)) := by
  have hready : IsWellFormed { e with status := [] } := h.of_eq rfl rfl rfl rfl
  obtain ⟨e', hpress, he'⟩ := hready.perform (KeyPress.ne_of_mem_typed name produced)
  obtain ⟨top, messages, hpressed⟩ := exists_pressKey hpress he'.buffer.cursor
  rw [hpressed]
  exact Yields.ok (he'.of_eq rfl rfl rfl rfl)

/-! ## All states -/

/-- The states that editors reach: what a key press, another text, scrolling, overlays and drawing
make of a new editor. Columns are replaced inside a row, and by a text without line feeds. -/
inductive Reachable : Editor → Prop
  | new (t : Text) (document : Option Text) (column : Int) (readOnly focused : Bool)
    (width height : Nat) :
    Reachable { ofText t with document, column, readOnly, width, height, focused }
  | pressKey {e e' : Editor} {messages : List EditorMessage} (name : Text)
    (produced : Option Text) :
    Reachable e → e.pressKey (.ofName name produced) = .ok (e', messages) → Reachable e'
  | replaceColumns {e e' : Editor} {row start stop : Nat} {t : Text} :
    Reachable e → e.buffer.Holds ⟨row, start⟩ → e.buffer.Holds ⟨row, stop⟩ →
    .scalar '\n' ∉ t → e.replaceColumns row start stop t = .ok e' → Reachable e'
  | loadText {e : Editor} (t : Text) : Reachable e → Reachable (e.loadText t)
  | scrollTo {e : Editor} (line : Int) : Reachable e → Reachable (e.scrollTo line).1
  | scrollBy {e : Editor} (delta : Int) : Reachable e → Reachable (e.scrollBy delta).1
  | showDecorations {e : Editor} (spans : StyledSpans) :
    Reachable e → Reachable (e.showDecorations spans)
  | setFindings {e : Editor} (findings : List Finding) :
    Reachable e → Reachable (e.setFindings findings)
  | resize {e : Editor} (width height : Nat) (focused : Bool) :
    Reachable e → Reachable { e with width, height, focused }
  | render {e e' : Editor} {drawn : RichText} :
    Reachable e → e.render = .ok (e', drawn) → Reachable e'

/-- The styles of a row may be kept for later. -/
theorem exists_of_stylesOf {row : Int} {styles : List Style}
    (h : e.stylesOf row = .ok (e', styles)) : ∃ lineStyles, e' = { e with lineStyles } := by
  unfold stylesOf at h
  split at h
  · obtain ⟨rfl, -⟩ := Prod.mk.inj (Except.ok.inj h)
    exact ⟨e.lineStyles, rfl⟩
  · cases hstyles : e.computeStyles row with
    | error fault => rw [hstyles] at h; injection h
    | ok computed =>
      rw [hstyles] at h
      obtain ⟨rfl, -⟩ := Prod.mk.inj (Except.ok.inj h)
      exact ⟨_, rfl⟩

theorem exists_of_drawLines {avail lines row room : Nat} {rows : List Row}
    (h : drawLines avail lines row room e = .ok (e', rows)) :
    ∃ lineStyles, e' = { e with lineStyles } := by
  induction lines generalizing row room e rows with
  | zero =>
    obtain ⟨rfl, -⟩ := Prod.mk.inj (Except.ok.inj h)
    exact ⟨e.lineStyles, rfl⟩
  | succ lines ih =>
    unfold drawLines at h
    split at h
    · obtain ⟨rfl, -⟩ := Prod.mk.inj (Except.ok.inj h)
      exact ⟨e.lineStyles, rfl⟩
    · obtain ⟨line, -, h⟩ := exists_of_bind h
      obtain ⟨⟨styled, styles⟩, hstyles, h⟩ := exists_of_bind h
      obtain ⟨selected, -, h⟩ := exists_of_bind h
      obtain ⟨⟨drawn, rest⟩, hrest, h⟩ := exists_of_bind h
      obtain ⟨rfl, -⟩ := Prod.mk.inj (Except.ok.inj h)
      obtain ⟨lineStyles, rfl⟩ := exists_of_stylesOf hstyles
      obtain ⟨lineStyles, rfl⟩ := ih hrest
      exact ⟨lineStyles, rfl⟩

/-- To draw the screen puts the scroll position right and computes styles, and does nothing else. -/
theorem exists_of_render {drawn : RichText} (h : e.render = .ok (e', drawn)) :
    ∃ top lineStyles stale, e' = { e with top, lineStyles, stale } := by
  unfold render at h
  split at h
  · obtain ⟨rfl, -⟩ := Prod.mk.inj (Except.ok.inj h)
    exact ⟨e.top, e.lineStyles, e.stale, rfl⟩
  · obtain ⟨⟨shown, rows⟩, hlines, h⟩ := exists_of_bind h
    obtain ⟨rfl, -⟩ := Prod.mk.inj (Except.ok.inj h)
    obtain ⟨lineStyles, rfl⟩ := exists_of_drawLines hlines
    unfold dropStaleStyles
    split <;> exact ⟨_, lineStyles, _, rfl⟩

theorem yields_replaceColumns (h : e.IsWellFormed) {row start stop : Nat} {t : Text}
    (hstart : e.buffer.Holds ⟨row, start⟩) (hstop : e.buffer.Holds ⟨row, stop⟩)
    (ht : .scalar '\n' ∉ t) : Yields IsWellFormed (e.replaceColumns row start stop t) := by
  unfold Editor.replaceColumns
  split
  · exact Yields.ok (h.of_eq rfl rfl rfl rfl)
  · exact (h.buffer.replaceColumns hstart hstop rfl ht).map fun b hb => h.edited hb

/-- **Every state of an editor is well-formed.** -/
theorem Reachable.isWellFormed (h : e.Reachable) : e.IsWellFormed := by
  induction h with
  | new t document column readOnly focused width height =>
    exact ⟨Buffer.isSound_ofText t, fun a ha => absurd ha (by simp [ofText]),
      fun b hb => absurd hb (by simp [ofText]), Nat.zero_le _⟩
  | pressKey name produced _ hpress ih =>
    obtain ⟨r, hr, hwell⟩ := yields_pressKey ih name produced
    obtain rfl := Except.ok.inj (hpress.symm.trans hr)
    exact hwell
  | replaceColumns _ hstart hstop ht hreplaced ih =>
    obtain ⟨e', he', hwell⟩ := yields_replaceColumns ih hstart hstop ht
    obtain rfl := Except.ok.inj (hreplaced.symm.trans he')
    exact hwell
  | loadText t _ ih => exact ih.withBuffer (Buffer.isSound_ofText t) rfl rfl rfl rfl
  | scrollTo line _ ih =>
    unfold Editor.scrollTo
    dsimp only
    split
    · exact ih
    · exact ih.of_eq rfl rfl rfl rfl
  | scrollBy delta _ ih =>
    unfold Editor.scrollBy Editor.scrollTo
    dsimp only
    split
    · exact ih
    · exact ih.of_eq rfl rfl rfl rfl
  | showDecorations _ _ ih | setFindings _ _ ih | resize _ _ _ _ ih =>
    exact ih.of_eq rfl rfl rfl rfl
  | render _ hdrawn ih =>
    obtain ⟨top, lineStyles, stale, rfl⟩ := exists_of_render hdrawn
    exact ih.of_eq rfl rfl rfl rfl

/--
**In every state the text has lines without line feeds, all places are inside their text, and the
history is bounded;** and neither a key press nor a replacement inside a row fails.
-/
theorem wellFormed_of_reachable (h : e.Reachable) :
    e.IsWellFormed ∧
    (∀ name produced, ∃ e' messages, e.pressKey (.ofName name produced) = .ok (e', messages)) ∧
    ∀ (row start stop : Nat) (t : Text), e.buffer.Holds ⟨row, start⟩ →
      e.buffer.Holds ⟨row, stop⟩ → .scalar '\n' ∉ t →
      ∃ e', e.replaceColumns row start stop t = .ok e' := by
  have hwell := h.isWellFormed
  refine ⟨hwell, fun name produced => ?_, fun row start stop t hstart hstop ht => ?_⟩
  · obtain ⟨⟨e', messages⟩, hpressed, -⟩ := yields_pressKey hwell name produced
    exact ⟨e', messages, hpressed⟩
  · obtain ⟨e', hreplaced, -⟩ := yields_replaceColumns hwell hstart hstop ht
    exact ⟨e', hreplaced⟩

/-- All of two lines is selected, and gives way to a character. -/
theorem wellFormed_of_reachable_typed :
    let e : Editor := ofText "a\nb"
    ∃ selected messages typed messages',
      e.pressKey (.ofName "ctrl+a" none) = .ok (selected, messages) ∧
      selected.pressKey (.ofName "x" (some "x")) = .ok (typed, messages') ∧
      typed.IsWellFormed ∧ typed.content = Text.ofString "x" ∧
      typed.undo = [{ lines := ["a", "b"], cursor := ⟨1, 1⟩ }] := by
  intro e
  have hnew : e.Reachable := .new "a\nb" none 0 false false 40 6
  obtain ⟨selected, messages, hselected⟩ := (wellFormed_of_reachable hnew).2.1 "ctrl+a" none
  have hreached := hnew.pressKey "ctrl+a" none hselected
  obtain ⟨typed, messages', htyped⟩ := (wellFormed_of_reachable hreached).2.1 "x" (some "x")
  have hwell := (wellFormed_of_reachable (hreached.pressKey "x" (some "x") htyped)).1
  have hrun : (do
      let r ← e.pressKey (.ofName "ctrl+a" none)
      let r' ← r.1.pressKey (.ofName "x" (some "x"))
      return (r'.1.content, r'.1.undo))
      = .ok (Text.ofString "x", [{ lines := ["a", "b"], cursor := ⟨1, 1⟩ }]) := by
    decide +kernel
  obtain ⟨r, hr, hrun⟩ := exists_of_bind hrun
  obtain rfl := Except.ok.inj (hselected.symm.trans hr)
  obtain ⟨r', hr', hrun⟩ := exists_of_bind hrun
  obtain rfl := Except.ok.inj (htyped.symm.trans hr')
  obtain ⟨hcontent, hundo⟩ := Prod.mk.inj (Except.ok.inj hrun)
  exact ⟨selected, messages, typed, messages', hselected, htyped, hwell, hcontent, hundo⟩

end Editor

end LangFile
