import LangFile.Proofs.Editor.History
import LangFile.Proofs.Text.Storable

/-!
# What gets into a buffer

Editing cuts lines up and joins the pieces, and puts in blanks and printable characters. Neither a
carriage return nor a surrogate is printable. So a buffer that can be stored, with a history of such
buffers, remains one.

1. What a change of some lines puts into them (`Offset`).
2. The changes of a buffer (`Buffer.IsStorable`).
3. The edits of an editor and its history (`IsStorable`), and what is typed
   (`isStorable_of_isPrintable`).
4. All keys (`IsStorable.pressKey`).
-/

namespace LangFile

/-! ## Lists at offsets -/

namespace Offset

variable {α : Type} {l new : List α} {a b : α} {i j : Int}

theorem before_subset (l : List α) (i : Int) : before l i ⊆ l := List.take_subset _ l

theorem after_subset (l : List α) (i : Int) : after l i ⊆ l := List.drop_subset _ l

theorem erase_subset (l : List α) (i : Int) : erase l i ⊆ l := by
  unfold erase
  split
  · exact List.eraseIdx_subset
  · exact List.Subset.refl l

theorem mem_of_get? (h : get? l i = some a) : a ∈ l := by
  obtain ⟨k, -, hk⟩ := Option.bind_eq_some_iff.1 h
  exact List.mem_of_getElem? hk

theorem mem_or_eq_of_mem_set (h : b ∈ set l i a) : b ∈ l ∨ b = a := by
  unfold set at h
  split at h
  · exact List.mem_or_eq_of_mem_set h
  · exact .inl h

theorem mem_or_eq_of_mem_insert (h : b ∈ insert l i a) : b ∈ l ∨ b = a := by
  rcases List.mem_append.1 h with hbefore | hrest
  · exact .inl (before_subset l i hbefore)
  · rcases List.mem_cons.1 hrest with rfl | hafter
    · exact .inr rfl
    · exact .inl (after_subset l i hafter)

theorem mem_or_mem_of_mem_replace (h : b ∈ replace l i j new) : b ∈ l ∨ b ∈ new := by
  rcases List.mem_append.1 h with hfirst | hafter
  · rcases List.mem_append.1 hfirst with hbefore | hnew
    · exact .inl (before_subset l i hbefore)
    · exact .inr hnew
  · exact .inl (List.drop_subset _ l hafter)

end Offset

namespace Editor

/-! ## Buffers -/

/-- Every line comes back from a file as it was written. -/
def Buffer.IsStorable (b : Buffer) : Prop := ∀ l ∈ b.lines, Text.IsStorable l

namespace Buffer.IsStorable

variable {b b' : Buffer} {t l l' : Text} {row start stop : Int}

theorem of_lines_eq (h : b.IsStorable) (hlines : b'.lines = b.lines) : b'.IsStorable := by
  unfold Buffer.IsStorable
  rw [hlines]
  exact h

theorem ofText (ht : t.IsStorable) : (Buffer.ofText t).IsStorable := Text.isStorable_lines ht

theorem text (h : b.IsStorable) : b.text.IsStorable := Text.isStorable_unlines_iff.2 h

theorem line (h : b.IsStorable) (hl : b.line row = .ok l) : l.IsStorable := by
  unfold Buffer.line at hl
  split at hl
  · next hget =>
    obtain rfl := Except.ok.inj hl
    exact h _ (Offset.mem_of_get? hget)
  · injection hl

/-- The part of a line before a column and the part of a line behind one. -/
theorem pieces (hl : l.IsStorable) (hl' : l'.IsStorable) :
    Text.IsStorable (Offset.before l start ++ Offset.after l' stop) :=
  (hl.of_subset (Offset.before_subset l start)).append (hl'.of_subset (Offset.after_subset l' stop))

theorem setLine (h : b.IsStorable) (hl : l.IsStorable) : (b.setLine row l).IsStorable := by
  intro m hm
  rcases Offset.mem_or_eq_of_mem_set hm with hold | rfl
  · exact h m hold
  · exact hl

theorem replaceColumns (h : b.IsStorable) (ht : t.IsStorable)
    (hreplaced : b.replaceColumns row start stop t = .ok b') : b'.IsStorable := by
  obtain ⟨l, hl, hreplaced⟩ := exists_of_bind hreplaced
  obtain rfl := Except.ok.inj hreplaced
  have hline := h.line hl
  exact h.setLine (((hline.of_subset (Offset.before_subset l start)).append ht).append
    (hline.of_subset (Offset.after_subset l stop)))

theorem removeBetween {s : Selection} (h : b.IsStorable)
    (hremoved : b.removeBetween s = .ok b') : b'.IsStorable := by
  obtain ⟨first, hfirst, hremoved⟩ := exists_of_bind hremoved
  obtain ⟨last, hlast, hremoved⟩ := exists_of_bind hremoved
  obtain rfl := Except.ok.inj hremoved
  intro l hl
  rcases Offset.mem_or_mem_of_mem_replace hl with hold | hnew
  · exact h l hold
  · obtain rfl := List.mem_singleton.1 hnew
    exact pieces (h.line hfirst) (h.line hlast)

theorem joinLines {ls : List Text} (h : b.IsStorable) (hjoined : b.joinLines row = .ok ls) :
    ∀ l ∈ ls, Text.IsStorable l := by
  obtain ⟨l, hl, hjoined⟩ := exists_of_bind hjoined
  obtain ⟨next, hnext, hjoined⟩ := exists_of_bind hjoined
  obtain rfl := Except.ok.inj hjoined
  intro m hm
  rcases Offset.mem_or_eq_of_mem_set (Offset.erase_subset _ _ hm) with hold | rfl
  · exact h m hold
  · exact (h.line hl).append (h.line hnext)

theorem backspace? (h : b.IsStorable) (hremoved : b.backspace? = .ok (some b')) :
    b'.IsStorable := by
  unfold Buffer.backspace? at hremoved
  dsimp only at hremoved
  split at hremoved
  · obtain ⟨l, hl, hremoved⟩ := exists_of_bind hremoved
    obtain rfl := Option.some.inj (Except.ok.inj hremoved)
    exact h.setLine (pieces (h.line hl) (h.line hl))
  · split at hremoved
    · obtain ⟨above, -, hremoved⟩ := exists_of_bind hremoved
      obtain ⟨lines, hlines, hremoved⟩ := exists_of_bind hremoved
      obtain rfl := Option.some.inj (Except.ok.inj hremoved)
      exact h.joinLines hlines
    · exact absurd (Except.ok.inj hremoved) (Option.some_ne_none b').symm

theorem delete? (h : b.IsStorable) (hremoved : b.delete? = .ok (some b')) : b'.IsStorable := by
  unfold Buffer.delete? at hremoved
  dsimp only at hremoved
  obtain ⟨l, hl, hremoved⟩ := exists_of_bind hremoved
  split at hremoved
  · obtain rfl := Option.some.inj (Except.ok.inj hremoved)
    exact h.setLine (pieces (h.line hl) (h.line hl))
  · split at hremoved
    · obtain ⟨lines, hlines, hremoved⟩ := exists_of_bind hremoved
      obtain rfl := Option.some.inj (Except.ok.inj hremoved)
      exact h.joinLines hlines
    · exact absurd (Except.ok.inj hremoved) (Option.some_ne_none b').symm

theorem breakLine (h : b.IsStorable) (hbroken : b.breakLine = .ok b') : b'.IsStorable := by
  unfold Buffer.breakLine at hbroken
  dsimp only at hbroken
  obtain ⟨l, hl, hbroken⟩ := exists_of_bind hbroken
  obtain rfl := Except.ok.inj hbroken
  have hline := h.line hl
  intro m hm
  rcases Offset.mem_or_eq_of_mem_insert hm with hset | rfl
  · rcases Offset.mem_or_eq_of_mem_set hset with hold | rfl
    · exact h m hold
    · exact hline.of_subset (Offset.before_subset l _)
  · refine (Text.isStorable_replicate _).append (hline.of_subset ?_)
    exact List.Subset.trans (List.dropWhile_sublist _).subset (Offset.after_subset l _)

end Buffer.IsStorable

/-! ## Editors -/

/-- The text of the editor and all texts of its history come back from a file as they were written.
-/
structure IsStorable (e : Editor) : Prop where
  buffer : e.buffer.IsStorable
  history : ∀ b ∈ e.undo ++ e.redo, b.IsStorable

namespace IsStorable

variable {e e' : Editor} {b : Buffer} {t : Text}

theorem of_eq (h : e.IsStorable) (hlines : e'.buffer.lines = e.buffer.lines)
    (hundo : e'.undo = e.undo) (hredo : e'.redo = e.redo) : e'.IsStorable where
  buffer := h.buffer.of_lines_eq hlines
  history := by
    rw [hundo, hredo]
    exact h.history

theorem content (h : e.IsStorable) : e.content.IsStorable := h.buffer.text

theorem withBuffer (h : e.IsStorable) (hb : b.IsStorable) : IsStorable { e with buffer := b } :=
  ⟨hb, h.history⟩

theorem withAnchor (h : e.IsStorable) (anchor : Option Cursor) :
    IsStorable { e with anchor } :=
  ⟨h.buffer, h.history⟩

theorem loadText (h : e.IsStorable) (ht : t.IsStorable) : (e.loadText t).IsStorable :=
  ⟨.ofText ht, h.history⟩

/-! ### The history -/

theorem edited (h : e.IsStorable) (hb : b.IsStorable) : (e.edited b).IsStorable := by
  refine ⟨hb, fun b' hb' => ?_⟩
  have hmem : b' ∈ (e.buffer :: e.undo).take historyLimit := by
    simpa [Editor.edited, saveHistory, touch] using hb'
  rcases List.mem_cons.1 (List.mem_of_mem_take hmem) with rfl | hold
  · exact h.buffer
  · exact h.history b' (List.mem_append_left _ hold)

theorem undoEdit (h : e.IsStorable) : e.undoEdit.IsStorable := by
  have hhistory := h.history
  cases hundo : e.undo with
  | nil =>
    rw [undoEdit_of_nil hundo]
    exact h.of_eq rfl rfl rfl
  | cons b rest =>
    rw [hundo] at hhistory
    rw [undoEdit_of_cons hundo]
    refine ⟨hhistory b (by simp), fun b' hb' => ?_⟩
    have hmem : b' ∈ rest ∨ b' = e.buffer ∨ b' ∈ e.redo := by simpa [touch] using hb'
    rcases hmem with hrest | rfl | hredo
    · exact hhistory b' (by simp [hrest])
    · exact h.buffer
    · exact hhistory b' (by simp [hredo])

theorem redoEdit (h : e.IsStorable) : e.redoEdit.IsStorable := by
  have hhistory := h.history
  cases hredo : e.redo with
  | nil =>
    rw [redoEdit_of_nil hredo]
    exact h.of_eq rfl rfl rfl
  | cons b rest =>
    rw [hredo] at hhistory
    rw [redoEdit_of_cons hredo]
    refine ⟨hhistory b (by simp), fun b' hb' => ?_⟩
    have hmem : b' = e.buffer ∨ b' ∈ e.undo ∨ b' ∈ rest := by
      simpa [touch, or_assoc] using hb'
    rcases hmem with rfl | hundo | hrest
    · exact h.buffer
    · exact hhistory b' (by simp [hundo])
    · exact hhistory b' (by simp [hrest])

/-! ### Edits -/

theorem prepareInsertion (h : e.IsStorable) (hprepared : e.prepareInsertion = .ok e') :
    e'.IsStorable := by
  obtain ⟨removed, hremoved, rfl⟩ := exists_of_map hprepared
  cases removed with
  | none => exact h.edited h.buffer
  | some e' =>
    unfold deleteSelection? at hremoved
    split at hremoved
    · simp at hremoved
    · obtain ⟨b, hb, hsome⟩ := exists_of_map hremoved
      obtain rfl := Option.some.inj hsome
      exact h.edited (h.buffer.removeBetween hb)

theorem insert (h : e.IsStorable) (ht : t.IsStorable) (hinserted : e.insert t = .ok e') :
    e'.IsStorable := by
  obtain ⟨prepared, hprepared, hinserted⟩ := exists_of_bind hinserted
  obtain ⟨b, hb, hinserted⟩ := exists_of_bind hinserted
  obtain rfl := Except.ok.inj hinserted
  have hready := h.prepareInsertion hprepared
  exact hready.withBuffer (hready.buffer.replaceColumns ht hb)

theorem breakLine (h : e.IsStorable) (hbroken : e.breakLine = .ok e') : e'.IsStorable := by
  obtain ⟨prepared, hprepared, hbroken⟩ := exists_of_bind hbroken
  obtain ⟨b, hb, hbroken⟩ := exists_of_bind hbroken
  obtain rfl := Except.ok.inj hbroken
  have hready := h.prepareInsertion hprepared
  exact hready.withBuffer (hready.buffer.breakLine hb)

theorem deleteOr {change : Buffer → Except Fault (Option Buffer)} (h : e.IsStorable)
    (hchange : ∀ b, change e.buffer = .ok (some b) → b.IsStorable)
    (hdeleted : e.deleteOr change = .ok e') : e'.IsStorable := by
  rw [deleteOr_eq] at hdeleted
  split at hdeleted
  · obtain ⟨b, hb, rfl⟩ := exists_of_map hdeleted
    exact h.edited (h.buffer.removeBetween hb)
  · obtain ⟨removed, hremoved, rfl⟩ := exists_of_map hdeleted
    cases removed with
    | none => exact h.of_eq rfl rfl rfl
    | some b => exact h.edited (hchange b hremoved)

theorem replaceColumns {row start stop : Int} (h : e.IsStorable) (ht : t.IsStorable)
    (hreplaced : e.replaceColumns row start stop t = .ok e') : e'.IsStorable := by
  unfold Editor.replaceColumns at hreplaced
  split at hreplaced
  · obtain rfl := Except.ok.inj hreplaced
    exact h.of_eq rfl rfl rfl
  · obtain ⟨b, hb, rfl⟩ := exists_of_map hreplaced
    exact h.edited (h.buffer.replaceColumns ht hb)

theorem edit {change : Editor → Except Fault Editor} (h : e.IsStorable)
    (hchange : change e = .ok e' → e'.IsStorable) (hedited : e.edit change = .ok e') :
    e'.IsStorable := by
  unfold Editor.edit at hedited
  split at hedited
  · obtain rfl := Except.ok.inj hedited
    exact h.of_eq rfl rfl rfl
  · exact hchange hedited

theorem move {m : Motion} (h : e.IsStorable) (hmoved : e.move m = .ok e') : e'.IsStorable := by
  obtain ⟨b, hb, rfl⟩ := exists_of_map hmoved
  exact h.of_eq (Buffer.lines_move hb) rfl rfl

end IsStorable

/-! ## Keys -/

/-- Control characters are invisible, and so are surrogates. -/
theorem isStorable_of_isPrintable {c : CodePoint} (h : c.isPrintable = true) : c.IsStorable := by
  unfold CodePoint.isPrintable at h
  obtain ⟨hvisible, -⟩ := Bool.and_eq_true_iff.1 h
  cases c with
  | scalar c =>
    rintro rfl
    exact absurd hvisible (by decide)
  | surrogate n =>
    have hinvisible : invisibleRanges.contains (.surrogate n) = true := by
      refine (CodePointRanges.contains_iff _ _).2 ⟨(0xD800, 0xF8FF), by decide, ?_⟩
      have hlt := n.isLt
      show 0xD800 ≤ 0xD800 + n.val ∧ 0xD800 + n.val ≤ 0xF8FF
      omega
    rw [hinvisible] at hvisible
    exact absurd hvisible (by decide)

/-- A key types a single printable character, if any. -/
theorem isPrintable_of_typed {name : Text} {produced : Option Text} {c : CodePoint}
    (h : (KeyPress.ofName name produced).typed = some c) : c.isPrintable = true := by
  unfold KeyPress.ofName at h
  dsimp only at h
  split at h
  · split at h
    · next hprintable =>
      obtain rfl := Option.some.inj h
      exact hprintable
    · simp at h
  · simp at h

namespace IsStorable

variable {e e' : Editor} {name : Text} {produced : Option Text} {messages : List EditorMessage}

theorem perform (h : e.IsStorable) (hperformed : e.perform (.ofName name produced) = .ok e') :
    e'.IsStorable := by
  unfold Editor.perform at hperformed
  split at hperformed
  · exact (h.withAnchor _).move hperformed
  · exact (h.withAnchor _).move hperformed
  · obtain rfl := Except.ok.inj hperformed
    exact h.of_eq rfl rfl rfl
  · obtain ⟨l, -, rfl⟩ := exists_of_map hperformed
    exact h.of_eq rfl rfl rfl
  · obtain rfl := Except.ok.inj hperformed
    exact h.undoEdit
  · obtain rfl := Except.ok.inj hperformed
    exact h.redoEdit
  · exact h.edit (h.deleteOr fun _ => h.buffer.backspace?) hperformed
  · exact h.edit (h.deleteOr fun _ => h.buffer.delete?) hperformed
  · exact h.edit h.breakLine hperformed
  · exact h.edit (h.insert (by decide)) hperformed
  · -- a key that is no command puts in the character that it types
    split at hperformed
    · next htyped =>
      refine h.edit (h.insert ?_) hperformed
      exact List.forall_mem_singleton.2 (isStorable_of_isPrintable (isPrintable_of_typed htyped))
    · obtain rfl := Except.ok.inj hperformed
      exact h

/-- **No key puts anything into a text or its history that cannot be stored.** -/
theorem pressKey (h : e.IsStorable)
    (hpressed : e.pressKey (.ofName name produced) = .ok (e', messages)) : e'.IsStorable := by
  obtain ⟨performed, b, top, -, hperform, hclamp, rfl, -⟩ := exists_of_pressKey hpressed
  have hready : IsStorable { e with status := [] } := h.of_eq rfl rfl rfl
  exact (hready.perform hperform).of_eq (Buffer.lines_clamp hclamp) rfl rfl

end IsStorable

end Editor

end LangFile
