import LangFile.Proofs.Editor.Reachable

/-!
# Undoing and redoing

A key press edits the text, goes back or forward in its history, or leaves lines and history alone
(`Pressed`). An edit remembers the buffer before it once, and forgets what was undone; going back
and forward only passes buffers from one side of the present one to the other.

1. What a key press does (`pressed_of_pressKey`).
2. One step back, and one step forward (`exists_undo`, `exists_redo`).
3. Runs of edits, with anything between them that edits nothing (`Edits`), and what they remember.
4. All together (`edits_undone_and_redone`).
-/

namespace LangFile.Editor

variable {e e' e'' : Editor} {k : KeyPress} {messages : List EditorMessage}

/-! ## What a key press does -/

/-- A mapped result comes from a result. -/
theorem exists_of_map {α β : Type} {x : Except Fault α} {f : α → β} {r : β}
    (h : x.map f = .ok r) : ∃ a, x = .ok a ∧ f a = r := by
  cases x with
  | error fault => injection h
  | ok a => exact ⟨a, rfl, Except.ok.inj h⟩

theorem Buffer.lines_clamp {b b' : Buffer} (h : b.clamp = .ok b') : b'.lines = b.lines := by
  unfold Buffer.clamp at h
  obtain ⟨l, -, h⟩ := exists_of_bind h
  obtain rfl := Except.ok.inj h
  rfl

theorem Buffer.lines_moveFreely {b b' : Buffer} {page : Nat} {m : Motion}
    (h : b.moveFreely page m = .ok b') : b'.lines = b.lines := by
  have hmoved (row column : Int) (h : (.ok (b.moveTo row column) : Except Fault Buffer) = .ok b') :
      b'.lines = b.lines := by
    obtain rfl := Except.ok.inj h
    rfl
  unfold Buffer.moveFreely at h
  cases m with
  | left =>
    dsimp only at h
    split at h
    · exact hmoved _ _ h
    · split at h
      · obtain ⟨above, -, h⟩ := exists_of_bind h
        exact hmoved _ _ h
      · obtain rfl := Except.ok.inj h
        rfl
  | right =>
    obtain ⟨l, -, h⟩ := exists_of_bind h
    split at h
    · exact hmoved _ _ h
    · split at h
      · exact hmoved _ _ h
      · obtain rfl := Except.ok.inj h
        rfl
  | up | down | pageUp | pageDown => exact hmoved _ _ h
  | lineStart | lineEnd =>
    obtain ⟨l, -, h⟩ := exists_of_bind h
    exact hmoved _ _ h

theorem Buffer.lines_move {b b' : Buffer} {page : Nat} {m : Motion}
    (h : b.move page m = .ok b') : b'.lines = b.lines := by
  obtain ⟨free, hfree, hclamp⟩ := exists_of_bind h
  exact (Buffer.lines_clamp hclamp).trans (Buffer.lines_moveFreely hfree)

theorem undoEdit_of_nil (h : e.undo = []) :
    e.undoEdit = { e with status := "nothing to undo" } := by
  unfold undoEdit
  rw [h]

theorem undoEdit_of_cons {b : Buffer} {rest : List Buffer} (h : e.undo = b :: rest) :
    e.undoEdit = { e with
      redo := e.buffer :: e.redo, undo := rest, buffer := b, anchor := none
      status := "undone" }.touch := by
  unfold undoEdit
  rw [h]

theorem redoEdit_of_nil (h : e.redo = []) :
    e.redoEdit = { e with status := "nothing to redo" } := by
  unfold redoEdit
  rw [h]

theorem redoEdit_of_cons {b : Buffer} {rest : List Buffer} (h : e.redo = b :: rest) :
    e.redoEdit = { e with
      undo := e.buffer :: e.undo, redo := rest, buffer := b, anchor := none
      status := "redone" }.touch := by
  unfold redoEdit
  rw [h]

/-- What a key press makes of an editor. Only an edit asks whether the text may be changed. A buffer
that comes back from the history is as it was, if its cursor is inside it. -/
inductive Pressed (k : KeyPress) (e : Editor) : Editor → Prop
  /-- Lines and history stay. -/
  | passed (buffer : Buffer) (anchor : Option Cursor) (status : Text) (top : Nat) :
    buffer.lines = e.buffer.lines → Pressed k e { e with buffer, anchor, status, top }
  | edited (buffer : Buffer) (status : Text) (top : Nat) :
    e.readOnly = false → Pressed k e { e.edited buffer with status, top }
  | undone {b : Buffer} {rest : List Buffer} (buffer : Buffer) (top : Nat) :
    k.key = .undo → e.undo = b :: rest → buffer.lines = b.lines →
    (b.Holds b.cursor → buffer = b) → Pressed k e { e.undoEdit with buffer, top }
  | redone {b : Buffer} {rest : List Buffer} (buffer : Buffer) (top : Nat) :
    k.key = .redo → e.redo = b :: rest → buffer.lines = b.lines →
    (b.Holds b.cursor → buffer = b) → Pressed k e { e.redoEdit with buffer, top }

/-- After a key the cursor is put right, and the text scrolled. -/
theorem Pressed.clamped (h : Pressed k e e') {buffer : Buffer}
    (hclamp : e'.buffer.clamp = .ok buffer) (top : Nat) : Pressed k e { e' with buffer, top } := by
  have hlines := Buffer.lines_clamp hclamp
  cases h with
  | passed buffer' anchor status _ hsame =>
    exact .passed buffer anchor status top (hlines.trans hsame)
  | edited buffer' status _ hwritable => exact .edited buffer status top hwritable
  | undone buffer' _ hkey hundo hsame hinside =>
    refine .undone buffer top hkey hundo (hlines.trans hsame) fun hb => ?_
    obtain rfl := hinside hb
    exact (Except.ok.inj ((Buffer.clamp_of_holds hb).symm.trans hclamp)).symm
  | redone buffer' _ hkey hredo hsame hinside =>
    refine .redone buffer top hkey hredo (hlines.trans hsame) fun hb => ?_
    obtain rfl := hinside hb
    exact (Except.ok.inj ((Buffer.clamp_of_holds hb).symm.trans hclamp)).symm

/-- A motion starts from the selection that its key leaves. -/
theorem Pressed.of_move {anchor : Option Cursor} {status : Text} {m : Motion}
    (h : { e with anchor, status }.move m = .ok e') : Pressed k e e' := by
  obtain ⟨buffer, hmove, rfl⟩ := exists_of_map h
  exact .passed buffer anchor status e.top (Buffer.lines_move hmove)

/-- To make room for new text is an edit. -/
theorem exists_edited_of_prepareInsertion (h : e.prepareInsertion = .ok e') :
    ∃ buffer, e' = e.edited buffer := by
  obtain ⟨removed, hremoved, rfl⟩ := exists_of_map h
  cases removed with
  | none => exact ⟨e.buffer, rfl⟩
  | some e' =>
    unfold deleteSelection? at hremoved
    split at hremoved
    · injection hremoved with hnone
      simp at hnone
    · obtain ⟨buffer, -, hsome⟩ := exists_of_map hremoved
      exact ⟨buffer, (Option.some.inj hsome).symm⟩

theorem Pressed.of_insert {status : Text} {t : Text} (hwritable : e.readOnly = false)
    (h : { e with status }.insert t = .ok e') : Pressed k e e' := by
  obtain ⟨prepared, hprepared, h⟩ := exists_of_bind h
  obtain ⟨inserted, -, h⟩ := exists_of_bind h
  obtain ⟨buffer, rfl⟩ := exists_edited_of_prepareInsertion hprepared
  obtain rfl := Except.ok.inj h
  exact .edited inserted status e.top hwritable

theorem Pressed.of_breakLine {status : Text} (hwritable : e.readOnly = false)
    (h : { e with status }.breakLine = .ok e') : Pressed k e e' := by
  obtain ⟨prepared, hprepared, h⟩ := exists_of_bind h
  obtain ⟨broken, -, h⟩ := exists_of_bind h
  obtain ⟨buffer, rfl⟩ := exists_edited_of_prepareInsertion hprepared
  obtain rfl := Except.ok.inj h
  exact .edited broken status e.top hwritable

/-- A deletion is an edit if there is something to delete. -/
theorem Pressed.of_deleteOr {status : Text} {change : Buffer → Except Fault (Option Buffer)}
    (hwritable : e.readOnly = false) (h : { e with status }.deleteOr change = .ok e') :
    Pressed k e e' := by
  rw [deleteOr_eq] at h
  split at h
  · obtain ⟨buffer, -, rfl⟩ := exists_of_map h
    exact .edited buffer status e.top hwritable
  · obtain ⟨removed, -, rfl⟩ := exists_of_map h
    cases removed with
    | none => exact .passed e.buffer none status e.top rfl
    | some buffer => exact .edited buffer status e.top hwritable

/-- A text that may not be edited stays. -/
theorem Pressed.of_edit {status : Text} {change : Editor → Except Fault Editor}
    (h : { e with status }.edit change = .ok e')
    (hchange : e.readOnly = false → change { e with status } = .ok e' → Pressed k e e') :
    Pressed k e e' := by
  unfold Editor.edit at h
  split at h
  · obtain rfl := Except.ok.inj h
    exact .passed e.buffer e.anchor _ e.top rfl
  · next hwritable => exact hchange (by simpa using hwritable) h

/-- **What a key does,** one case for each key. -/
theorem pressed_of_perform {status : Text} (h : { e with status }.perform k = .ok e') :
    Pressed k e e' := by
  unfold Editor.perform at h
  split at h
  · exact .of_move h
  · exact .of_move h
  · obtain rfl := Except.ok.inj h
    exact .passed e.buffer none status e.top rfl
  · obtain ⟨l, -, rfl⟩ := exists_of_map h
    exact .passed _ _ status e.top rfl
  · next hkey =>
    obtain rfl := Except.ok.inj h
    by_cases hnone : e.undo = []
    · rw [undoEdit_of_nil (e := { e with status }) hnone]
      exact .passed e.buffer e.anchor _ e.top rfl
    · obtain ⟨b, rest, hundo⟩ := List.exists_cons_of_ne_nil hnone
      have hundone : { e with status }.undoEdit
          = { e.undoEdit with buffer := b, top := e.top } := by
        rw [undoEdit_of_cons hundo, undoEdit_of_cons (e := { e with status }) hundo]
        rfl
      rw [hundone]
      exact .undone b e.top hkey hundo rfl fun _ => rfl
  · next hkey =>
    obtain rfl := Except.ok.inj h
    by_cases hnone : e.redo = []
    · rw [redoEdit_of_nil (e := { e with status }) hnone]
      exact .passed e.buffer e.anchor _ e.top rfl
    · obtain ⟨b, rest, hredo⟩ := List.exists_cons_of_ne_nil hnone
      have hredone : { e with status }.redoEdit
          = { e.redoEdit with buffer := b, top := e.top } := by
        rw [redoEdit_of_cons hredo, redoEdit_of_cons (e := { e with status }) hredo]
        rfl
      rw [hredone]
      exact .redone b e.top hkey hredo rfl fun _ => rfl
  · exact .of_edit h .of_deleteOr
  · exact .of_edit h .of_deleteOr
  · exact .of_edit h .of_breakLine
  · exact .of_edit h .of_insert
  · split at h
    · exact .of_edit h .of_insert
    · obtain rfl := Except.ok.inj h
      exact .passed e.buffer e.anchor status e.top rfl

/-- A key press carries out the key, and then puts the cursor right and scrolls; what it tells is
what changed, and perhaps that completion is wanted. -/
theorem exists_of_pressKey (h : e.pressKey k = .ok (e', messages)) :
    ∃ performed buffer top wanted, { e with status := [] }.perform k = .ok performed ∧
      performed.buffer.clamp = .ok buffer ∧ e' = { performed with buffer, top } ∧
      messages = changes e e' ++ wanted ∧
      ∀ m ∈ wanted, ∃ place before, m = .completionRequested place before ∧
        performed.completionPlace? k = .ok (some place) := by
  obtain ⟨performed, hperform, h⟩ := exists_of_bind h
  obtain ⟨place, hplace, h⟩ := exists_of_bind h
  obtain ⟨buffer, hclamp, h⟩ := exists_of_bind h
  have hshown : ∃ top, (if 0 < { performed with buffer }.textWidth then
      { performed with buffer }.showCursor { performed with buffer }.textWidth
      else { performed with buffer }) = { performed with buffer, top } := by
    split
    · exact ⟨_, rfl⟩
    · exact ⟨performed.top, rfl⟩
  obtain ⟨top, hshown⟩ := hshown
  dsimp only at h hshown
  rw [hshown] at h
  cases place with
  | none =>
    obtain ⟨rfl, rfl⟩ := Prod.mk.inj (Except.ok.inj h)
    exact ⟨performed, buffer, top, [], hperform, hclamp, rfl, (List.append_nil _).symm, by simp⟩
  | some place =>
    obtain ⟨before, -, h⟩ := exists_of_bind h
    obtain ⟨rfl, rfl⟩ := Prod.mk.inj (Except.ok.inj h)
    refine ⟨performed, buffer, top, _, hperform, hclamp, rfl, rfl, fun m hm => ?_⟩
    exact ⟨place, before, List.mem_singleton.1 hm, hplace⟩

/-- **What a key press does.** -/
theorem pressed_of_pressKey (h : e.pressKey k = .ok (e', messages)) : Pressed k e e' := by
  obtain ⟨performed, buffer, top, -, hperform, hclamp, rfl, -⟩ := exists_of_pressKey h
  exact (pressed_of_perform hperform).clamped hclamp top

/-- It tells that the text changed when the version says so. -/
theorem textChanged_mem_iff (h : e.pressKey k = .ok (e', messages)) :
    .textChanged ∈ messages ↔ e'.version ≠ e.version := by
  obtain ⟨_, _, _, wanted, _, _, _, rfl, hwanted⟩ := exists_of_pressKey h
  have hnot : .textChanged ∉ wanted := fun hmem => by
    obtain ⟨_, _, hm, _⟩ := hwanted _ hmem
    simp at hm
  unfold changes
  by_cases hversion : e'.version = e.version
  · rw [if_pos hversion]
    simp only [List.nil_append, List.mem_append, hnot, or_false, hversion, ne_eq,
      not_true_eq_false, iff_false, not_or]
    constructor
    · split <;> simp
    · split <;> simp
  · rw [if_neg hversion]
    simp [hversion]

/-! ## One step, back or forward -/

/-- The press of the key that goes back in the history, whatever text comes with it. -/
def undoKey (produced : Option Text) : KeyPress := .ofName "ctrl+z" produced

/-- The press of the key that goes forward again. -/
def redoKey (produced : Option Text) : KeyPress := .ofName "ctrl+y" produced

variable {b : Buffer} {rest : List Buffer} {produced : Option Text}

theorem exists_undo (h : e.IsWellFormed) (produced : Option Text) (hundo : e.undo = b :: rest) :
    ∃ e' messages, e.pressKey (undoKey produced) = .ok (e', messages) ∧ e'.IsWellFormed ∧
      e'.buffer = b ∧ e'.undo = rest ∧ e'.redo = e.buffer :: e.redo := by
  have hkey : (undoKey produced).key = .undo := by
    show EditorKey.ofName "ctrl+z" = .undo
    decide +kernel
  have hready : IsWellFormed { e with status := [] } := h.of_eq rfl rfl rfl rfl
  have hperform : { e with status := [] }.perform (undoKey produced)
      = .ok { e with status := [] }.undoEdit := by
    unfold perform
    rw [hkey]
  have hwell := hready.undoEdit
  rw [undoEdit_of_cons (e := { e with status := [] }) hundo] at hperform hwell
  obtain ⟨top, messages, hpress⟩ := exists_pressKey hperform hwell.buffer.cursor
  exact ⟨_, messages, hpress, hwell.of_eq rfl rfl rfl rfl, rfl, rfl, rfl⟩

theorem exists_redo (h : e.IsWellFormed) (produced : Option Text) (hredo : e.redo = b :: rest) :
    ∃ e' messages, e.pressKey (redoKey produced) = .ok (e', messages) ∧ e'.IsWellFormed ∧
      e'.buffer = b ∧ e'.redo = rest ∧ e'.undo = e.buffer :: e.undo := by
  have hkey : (redoKey produced).key = .redo := by
    show EditorKey.ofName "ctrl+y" = .redo
    decide +kernel
  have hready : IsWellFormed { e with status := [] } := h.of_eq rfl rfl rfl rfl
  have hperform : { e with status := [] }.perform (redoKey produced)
      = .ok { e with status := [] }.redoEdit := by
    unfold perform
    rw [hkey]
  have hwell := hready.redoEdit
  rw [redoEdit_of_cons (e := { e with status := [] }) hredo] at hperform hwell
  obtain ⟨top, messages, hpress⟩ := exists_pressKey hperform hwell.buffer.cursor
  exact ⟨_, messages, hpress, hwell.of_eq rfl rfl rfl rfl, rfl, rfl, rfl⟩

/-! ## Many steps -/

/-- The key presses lead there, one after another. -/
def Leads (e : Editor) (ks : List KeyPress) (e' : Editor) : Prop :=
  ∃ messages, e.pressKeys ks = .ok (e', messages)

namespace Leads

theorem nil (e : Editor) : e.Leads [] e := ⟨[], rfl⟩

theorem cons {ks : List KeyPress} (hpress : e.pressKey k = .ok (e', messages))
    (h : e'.Leads ks e'') : e.Leads (k :: ks) e'' := by
  obtain ⟨more, h⟩ := h
  refine ⟨messages ++ more, ?_⟩
  unfold pressKeys
  rw [hpress]
  show (e'.pressKeys ks >>= _) = _
  rw [h]
  rfl

theorem append {ks ks' : List KeyPress} (h : e.Leads ks e') (h' : e'.Leads ks' e'') :
    e.Leads (ks ++ ks') e'' := by
  induction ks generalizing e with
  | nil =>
    obtain ⟨messages, h⟩ := h
    obtain ⟨rfl, -⟩ := Prod.mk.inj (Except.ok.inj h)
    exact h'
  | cons k ks ih =>
    obtain ⟨messages, h⟩ := h
    obtain ⟨⟨first, told⟩, hpress, h⟩ := exists_of_bind h
    obtain ⟨⟨last, more⟩, hlast, h⟩ := exists_of_bind h
    obtain ⟨rfl, -⟩ := Prod.mk.inj (Except.ok.inj h)
    exact cons hpress (ih ⟨more, hlast⟩)

end Leads

/-- To go back and forward again by as many steps leads to the same buffer and the same history. -/
theorem exists_undo_redo (h : e.IsWellFormed) (produced : Option Text) {n : Nat}
    (hn : n ≤ e.undo.length) :
    ∃ e', e.Leads (.replicate n (undoKey produced) ++ .replicate n (redoKey produced)) e' ∧
      e'.IsWellFormed ∧ e'.buffer = e.buffer ∧ e'.undo = e.undo ∧ e'.redo = e.redo := by
  induction n generalizing e with
  | zero => exact ⟨e, Leads.nil e, h, rfl, rfl, rfl⟩
  | succ n ih =>
    obtain ⟨b, rest, hundo⟩ :=
      List.exists_cons_of_length_pos (Nat.lt_of_lt_of_le (Nat.succ_pos n) hn)
    obtain ⟨e₁, told, hback, hwell₁, hbuffer₁, hundo₁, hredo₁⟩ := exists_undo h produced hundo
    -- what is between the first step back and the last one forward changes nothing
    have hn₁ : n ≤ e₁.undo.length := by
      rw [hundo, List.length_cons] at hn
      rw [hundo₁]
      exact Nat.le_of_succ_le_succ hn
    obtain ⟨e₂, hleads, hwell₂, hbuffer₂, hundo₂, hredo₂⟩ := ih hwell₁ hn₁
    obtain ⟨e₃, told', hforward, hwell₃, hbuffer₃, hredo₃, hundo₃⟩ :=
      exists_redo hwell₂ produced (hredo₂.trans hredo₁)
    refine ⟨e₃, ?_, hwell₃, hbuffer₃, ?_, hredo₃⟩
    · rw [List.replicate_succ, List.cons_append, List.replicate_succ', ← List.append_assoc]
      exact Leads.cons hback (hleads.append (Leads.cons hforward (Leads.nil e₃)))
    · rw [hundo₃, hbuffer₂, hbuffer₁, hundo₂, hundo₁, hundo]

/-- To go back leads to the buffers that are remembered, the latest first. -/
theorem exists_undos (h : e.IsWellFormed) (produced : Option Text) {n : Nat}
    (hb : e.undo[n]? = some b) :
    ∃ e', e.Leads (.replicate (n + 1) (undoKey produced)) e' ∧ e'.buffer = b := by
  induction n generalizing e with
  | zero =>
    cases hundo : e.undo with
    | nil => simp [hundo] at hb
    | cons first rest =>
      obtain rfl : first = b := by simpa [hundo] using hb
      obtain ⟨e', told, hback, -, hbuffer, -⟩ := exists_undo h produced hundo
      exact ⟨e', Leads.cons hback (Leads.nil e'), hbuffer⟩
  | succ n ih =>
    cases hundo : e.undo with
    | nil => simp [hundo] at hb
    | cons first rest =>
      obtain ⟨e₁, told, hback, hwell₁, -, hundo₁, -⟩ := exists_undo h produced hundo
      rw [hundo, List.getElem?_cons_succ, ← hundo₁] at hb
      obtain ⟨e', hleads, hbuffer⟩ := ih hwell₁ hb
      exact ⟨e', Leads.cons hback hleads, hbuffer⟩

/-! ## Runs of edits -/

/-- A key other than those that go through the history changes the text, or columns of a row are
replaced. -/
inductive EditsTo (e : Editor) : Editor → Prop
  | pressKey {e' : Editor} {messages : List EditorMessage} (name : Text) (produced : Option Text) :
    EditorKey.ofName name ≠ .undo → EditorKey.ofName name ≠ .redo →
    e.pressKey (.ofName name produced) = .ok (e', messages) → .textChanged ∈ messages → EditsTo e e'
  | replaceColumns {e' : Editor} {row start stop : Nat} {t : Text} :
    e.readOnly = false → e.buffer.Holds ⟨row, start⟩ → e.buffer.Holds ⟨row, stop⟩ →
    .scalar '\n' ∉ t → e.replaceColumns row start stop t = .ok e' → EditsTo e e'

/-- Something else is done to an editor that is no edit: a key is pressed that does not change the
text, or the text is scrolled, drawn, or shown in another way. -/
inductive PassesTo (e : Editor) : Editor → Prop
  | pressKey {e' : Editor} {messages : List EditorMessage} (name : Text) (produced : Option Text) :
    e.pressKey (.ofName name produced) = .ok (e', messages) → .textChanged ∉ messages →
    PassesTo e e'
  | scrollTo (line : Int) : PassesTo e (e.scrollTo line).1
  | scrollBy (delta : Int) : PassesTo e (e.scrollBy delta).1
  | showDecorations (spans : StyledSpans) : PassesTo e (e.showDecorations spans)
  | setFindings (findings : List Finding) : PassesTo e (e.setFindings findings)
  | resize (width height : Nat) (focused : Bool) : PassesTo e { e with width, height, focused }
  | render {e' : Editor} {drawn : RichText} : e.render = .ok (e', drawn) → PassesTo e e'

/-- So many edits lead from one state to another, the first of them in the first state. Anything
that is no edit may happen after each of them. -/
inductive Edits : Nat → Editor → Editor → Prop
  | first {e e' : Editor} : e.EditsTo e' → Edits 1 e e'
  | next {m : Nat} {e e' e'' : Editor} : Edits m e e' → e'.EditsTo e'' → Edits (m + 1) e e''
  | between {m : Nat} {e e' e'' : Editor} : Edits m e e' → e'.PassesTo e'' → Edits m e e''

theorem EditsTo.reachable (h : e.EditsTo e') (he : e.Reachable) : e'.Reachable := by
  cases h with
  | pressKey name produced _ _ hpress _ => exact he.pressKey name produced hpress
  | replaceColumns _ hstart hstop ht hreplaced => exact he.replaceColumns hstart hstop ht hreplaced

theorem PassesTo.reachable (h : e.PassesTo e') (he : e.Reachable) : e'.Reachable := by
  cases h with
  | pressKey name produced hpress _ => exact he.pressKey name produced hpress
  | scrollTo line => exact he.scrollTo line
  | scrollBy delta => exact he.scrollBy delta
  | showDecorations spans => exact he.showDecorations spans
  | setFindings findings => exact he.setFindings findings
  | resize width height focused => exact he.resize width height focused
  | render hdrawn => exact he.render hdrawn

/-- **An edit remembers the buffer before it, and nothing that was undone.** -/
theorem EditsTo.history (h : e.EditsTo e') :
    e'.undo = (e.buffer :: e.undo).take historyLimit ∧ e'.redo = [] := by
  cases h with
  | pressKey name produced hundo hredo hpress hchanged =>
    have hversion := (textChanged_mem_iff hpress).1 hchanged
    cases pressed_of_pressKey hpress with
    | passed => exact absurd rfl hversion
    | edited => exact ⟨rfl, rfl⟩
    | undone _ _ hkey => exact absurd hkey hundo
    | redone _ _ hkey => exact absurd hkey hredo
  | replaceColumns hwritable _ _ _ hreplaced =>
    unfold Editor.replaceColumns at hreplaced
    rw [if_neg (by simp [hwritable])] at hreplaced
    obtain ⟨buffer, -, rfl⟩ := exists_of_map hreplaced
    exact ⟨rfl, rfl⟩

theorem version_ne_of_touch (e : Editor) : e.touch.version ≠ e.version := Nat.succ_ne_self _

/-- A key that does not change the text leaves lines and history alone. -/
theorem passes_of_pressKey (h : e.pressKey k = .ok (e', messages))
    (hsame : .textChanged ∉ messages) :
    e'.buffer.lines = e.buffer.lines ∧ e'.undo = e.undo ∧ e'.redo = e.redo := by
  have hversion : e'.version = e.version := by
    by_contra hne
    exact hsame ((textChanged_mem_iff h).2 hne)
  cases pressed_of_pressKey h with
  | passed _ _ _ _ hlines => exact ⟨hlines, rfl, rfl⟩
  | edited => exact absurd hversion (version_ne_of_touch _)
  | undone _ _ _ hundo =>
    rw [undoEdit_of_cons hundo] at hversion
    exact absurd hversion (version_ne_of_touch e)
  | redone _ _ _ hredo =>
    rw [redoEdit_of_cons hredo] at hversion
    exact absurd hversion (version_ne_of_touch e)

theorem PassesTo.undo_eq (h : e.PassesTo e') : e'.undo = e.undo := by
  cases h with
  | pressKey name produced hpress hsame => exact (passes_of_pressKey hpress hsame).2.1
  | scrollTo line =>
    unfold Editor.scrollTo
    dsimp only
    split <;> rfl
  | scrollBy delta =>
    unfold Editor.scrollBy Editor.scrollTo
    dsimp only
    split <;> rfl
  | showDecorations | setFindings | resize => rfl
  | render hdrawn =>
    obtain ⟨top, lineStyles, stale, rfl⟩ := exists_of_render hdrawn
    rfl

/-- **The buffer before the first of some edits is remembered,** below those before the others. -/
theorem Edits.remembered {m : Nat} (h : Edits m e e') (hm : m ≤ historyLimit) :
    1 ≤ m ∧ e'.undo[m - 1]? = some e.buffer := by
  induction h with
  | first hedit =>
    rw [hedit.history.1]
    exact ⟨Nat.le_refl 1, rfl⟩
  | @next m e e₁ e₂ _ hedit ih =>
    obtain ⟨hpos, hremembered⟩ := ih (Nat.le_of_succ_le hm)
    refine ⟨Nat.le_add_left 1 m, ?_⟩
    obtain ⟨n, rfl⟩ : ∃ n, m = n + 1 := Nat.exists_eq_add_of_le' hpos
    rw [hedit.history.1, List.getElem?_take_of_lt (by omega)]
    exact hremembered
  | between _ hpass ih =>
    rw [hpass.undo_eq]
    exact ih hm

theorem Edits.reachable {m : Nat} (h : Edits m e e') (he : e.Reachable) : e'.Reachable := by
  induction h with
  | first hedit => exact hedit.reachable he
  | next _ hedit ih => exact hedit.reachable (ih he)
  | between _ hpass ih => exact hpass.reachable (ih he)

/--
**Every edit is one step back, and every step back one forward.** After an edit the key for undoing
restores the buffer, lines and cursor, from before it, and the key for redoing then that from after
it. After at most 200 edits as many steps back restore the buffer from before the first. As many
steps forward as back, if there are so many, leave the buffer as it was. A key that is no edit
leaves lines and history alone, unless it goes through the history.
-/
theorem edits_undone_and_redone (h : e.Reachable) (produced : Option Text) :
    (∀ e', e.EditsTo e' → ∃ undone redone,
      e'.Leads [undoKey produced] undone ∧ undone.buffer = e.buffer ∧
      undone.Leads [redoKey produced] redone ∧ redone.buffer = e'.buffer) ∧
    (∀ m e', Edits m e e' → m ≤ 200 → ∃ undone,
      e'.Leads (.replicate m (undoKey produced)) undone ∧ undone.buffer = e.buffer) ∧
    (∀ n ≤ e.undo.length, ∃ e',
      e.Leads (.replicate n (undoKey produced) ++ .replicate n (redoKey produced)) e' ∧
      e'.buffer = e.buffer) ∧
    ∀ name e' messages, EditorKey.ofName name ≠ .undo → EditorKey.ofName name ≠ .redo →
      e.pressKey (.ofName name produced) = .ok (e', messages) →
      e.EditsTo e' ∨
        e'.buffer.lines = e.buffer.lines ∧ e'.undo = e.undo ∧ e'.redo = e.redo := by
  refine ⟨fun e' hedit => ?_, fun m e' hedits hm => ?_, fun n hn => ?_,
    fun name e' messages hundo hredo hpress => ?_⟩
  · have hwell := (hedit.reachable h).isWellFormed
    have hundo : e'.undo = e.buffer :: (e.undo.take (historyLimit - 1)) := hedit.history.1
    obtain ⟨undone, told, hback, hwell₁, hbuffer₁, -, hredo₁⟩ := exists_undo hwell produced hundo
    obtain ⟨redone, told', hforward, -, hbuffer₂, -⟩ := exists_redo hwell₁ produced hredo₁
    exact ⟨undone, redone, Leads.cons hback (Leads.nil undone), hbuffer₁,
      Leads.cons hforward (Leads.nil redone), hbuffer₂⟩
  · obtain ⟨hpos, hremembered⟩ := hedits.remembered hm
    obtain ⟨undone, hleads, hbuffer⟩ :=
      exists_undos (hedits.reachable h).isWellFormed produced hremembered
    rw [Nat.sub_add_cancel hpos] at hleads
    exact ⟨undone, hleads, hbuffer⟩
  · obtain ⟨e', hleads, -, hbuffer, -⟩ := exists_undo_redo h.isWellFormed produced hn
    exact ⟨e', hleads, hbuffer⟩
  · by_cases hchanged : .textChanged ∈ messages
    · exact Or.inl (.pressKey name produced hundo hredo hpress hchanged)
    · exact Or.inr (passes_of_pressKey hpress hchanged)

/-- A character takes the place of all of two lines. They come back with the cursor at their end,
and then go again. -/
theorem edits_undone_and_redone_selected :
    let e : Editor := ofText "ab\ncd"
    ∃ selected messages typed messages' undone redone,
      e.pressKey (.ofName "ctrl+a" none) = .ok (selected, messages) ∧
      selected.pressKey (.ofName "x" (some "x")) = .ok (typed, messages') ∧
      typed.Leads [undoKey none] undone ∧
      undone.buffer = { lines := ["ab", "cd"], cursor := ⟨1, 2⟩ } ∧
      undone.Leads [redoKey none] redone ∧
      redone.buffer = { lines := ["x"], cursor := ⟨0, 1⟩ } := by
  intro e
  have hnew : e.Reachable := .new "ab\ncd" none 0 false false 40 6
  obtain ⟨⟨selected, messages⟩, hselected, -⟩ := yields_pressKey hnew.isWellFormed "ctrl+a" none
  have hreached := hnew.pressKey "ctrl+a" none hselected
  obtain ⟨⟨typed, messages'⟩, htyped, -⟩ := yields_pressKey hreached.isWellFormed "x" (some "x")
  have hrun : (do
      let r ← e.pressKey (.ofName "ctrl+a" none)
      let r' ← r.1.pressKey (.ofName "x" (some "x"))
      return (r.1.buffer, r'.1.buffer, decide (EditorMessage.textChanged ∈ r'.2)))
      = .ok ({ lines := ["ab", "cd"], cursor := ⟨1, 2⟩ }, { lines := ["x"], cursor := ⟨0, 1⟩ },
        true) := by
    decide +kernel
  obtain ⟨r, hr, hrun⟩ := exists_of_bind hrun
  obtain rfl := Except.ok.inj (hselected.symm.trans hr)
  obtain ⟨r', hr', hrun⟩ := exists_of_bind hrun
  obtain rfl := Except.ok.inj (htyped.symm.trans hr')
  obtain ⟨hbefore, hrun⟩ := Prod.mk.inj (Except.ok.inj hrun)
  obtain ⟨hafter, hchanged⟩ := Prod.mk.inj hrun
  have hedit : selected.EditsTo typed :=
    .pressKey "x" (some "x") (by decide +kernel) (by decide +kernel) htyped
      (of_decide_eq_true hchanged)
  obtain ⟨undone, redone, hback, hrestored, hforward, hrepeated⟩ :=
    (edits_undone_and_redone hreached none).1 typed hedit
  exact ⟨selected, messages, typed, messages', undone, redone, hselected, htyped, hback,
    hrestored.trans hbefore, hforward, hrepeated.trans hafter⟩

end LangFile.Editor
