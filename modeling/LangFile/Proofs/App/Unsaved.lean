import LangFile.Proofs.App.Course
import LangFile.Proofs.App.Reference

/-!
# The mark of unsaved work

An editor is marked when its text is edited, and the mark goes when the text is saved or another one
is loaded. What goes through the history changes the text and leaves the mark alone. So an editor
without the mark holds the text that was loaded or saved last, perhaps not now, but among the texts
of its history.

1. The texts of the history (`Editor.timeline`), which nothing changes but edits.
2. What is put on record when a text is loaded or saved (`Stored`, `Step.record`), and runs that
   keep the record (`Recorded`).
3. What an editor without the mark holds (`unmarked_text_in_history`), and that it need not hold it
   now (`undo_hides_unsaved`).
-/

namespace LangFile

open Editor

/-! ## The texts of the history -/

namespace Editor

variable {e e' : Editor} {k : KeyPress}

/-- The texts of the history, from the oldest on, with the present one and those that have been
undone. -/
def timeline (e : Editor) : List Text := (e.undo.reverse ++ e.buffer :: e.redo).map Buffer.text

/-- As many former texts as there are stand before the present one. -/
theorem getElem?_timeline (e : Editor) : e.timeline[e.undo.length]? = some e.content := by
  simp [timeline, content]

theorem timeline_congr (h : e'.held = e.held) : e'.timeline = e.timeline := by
  simp only [held, Held.mk.injEq] at h
  simp [timeline, h]

theorem modified_edited (e : Editor) (b : Buffer) : (e.edited b).modified = true := rfl

/-- To go back or forward passes a buffer from one side of the present one to the other; an edit
sets the mark, and no other key changes the text. -/
theorem Pressed.unmarked (h : Pressed k e e') (hunmarked : e'.modified = false) :
    e.modified = false ∧ e'.timeline = e.timeline ∧
      (k.key ≠ .undo → k.key ≠ .redo → e'.content = e.content) := by
  cases h with
  | passed buffer anchor status top hlines =>
    exact ⟨hunmarked, by simp [timeline, Buffer.text, hlines],
      fun _ _ => congrArg Text.unlines hlines⟩
  | edited buffer => exact absurd hunmarked (by simp [modified_edited])
  | undone buffer top hkey hundo hlines =>
    rw [undoEdit_of_cons hundo] at hunmarked ⊢
    exact ⟨hunmarked, by simp [timeline, Buffer.text, touch, hundo, hlines],
      fun hnot => absurd hkey hnot⟩
  | redone buffer top hkey hredo hlines =>
    rw [redoEdit_of_cons hredo] at hunmarked ⊢
    exact ⟨hunmarked, by simp [timeline, Buffer.text, touch, hredo, hlines],
      fun _ hnot => absurd hkey hnot⟩

end Editor

namespace App

variable {a a' : App} {step : Step} {id : ViewId} {e e' : Editor}

/-! ## The record -/

/-- What is put on record of an editor when its text has been loaded or saved: the text, and how
many former ones stood before it in the history. -/
structure Stored where
  text : Text
  depth : Nat
deriving DecidableEq

/-- What is put on record of an editor of the application. -/
def stored (a : App) (id : ViewId) : Stored :=
  (a.views[id]?.map fun e => ⟨e.content, e.undo.length⟩).getD ⟨[], 0⟩

theorem stored_of_view (he : a.views[id]? = some e) :
    a.stored id = ⟨e.content, e.undo.length⟩ := by
  unfold stored
  rw [he]
  rfl

/-- The step writes the text of the editor to the disk, or loads another one into it. -/
def Step.stores (step : Step) (a a' : App) (id : ViewId) : Bool :=
  step matches .save && a.written? = some id ||
    step.opensFiles && a.views[id]?.map (·.content) ≠ a'.views[id]?.map (·.content)

/-- The record after a step. -/
def Step.record (step : Step) (a a' : App) (record : ViewId → Stored) (id : ViewId) : Stored :=
  if step.stores a a' id then a'.stored id else record id

/-- The record after some steps. -/
def records : List Step → App → (ViewId → Stored) → ViewId → Stored
  | [], _, record => record
  | step :: steps, a, record =>
    match step.take a with
    | .error _ => record
    | .ok a' => records steps a' (step.record a a' record)

/-- The states of the application, with what is on record of its editors. -/
inductive Recorded : App → (ViewId → Stored) → Prop
  | mount {disk : Disk} {paths : List Text} {referenceName : Text} {width height : Nat} {a : App} :
    App.new disk paths referenceName width height = .ok a → Recorded a.mount a.mount.stored
  | step {a a' : App} {record : ViewId → Stored} (step : Step) :
    Recorded a record → step.take a = .ok a' → Recorded a' (step.record a a' record)

variable {record : ViewId → Stored}

theorem Recorded.run {steps : List Step} (h : Recorded a record) (hrun : run steps a = .ok a') :
    Recorded a' (records steps a record) := by
  induction steps generalizing a record with
  | nil =>
    obtain rfl := Except.ok.inj hrun
    exact h
  | cons step steps ih =>
    obtain ⟨next, htake, hrest⟩ := exists_of_run_cons hrun
    unfold records
    rw [htake]
    exact ih (h.step step htake) hrest

/-! ## What stands in an editor without the mark -/

/-- Without the mark, the text on record stands in the history at its place. -/
def InHistory (e : Editor) (s : Stored) : Prop :=
  e.modified = false → e.timeline[s.depth]? = some s.text

/-- Without the mark, the editor holds the text on record. -/
def Faithful (e : Editor) (s : Stored) : Prop := e.modified = false → e.content = s.text

theorem inHistory_stored (he : a.views[id]? = some e) : InHistory e (a.stored id) := by
  rw [stored_of_view he]
  exact fun _ => e.getElem?_timeline

theorem faithful_stored (he : a.views[id]? = some e) : Faithful e (a.stored id) := by
  rw [stored_of_view he]
  exact fun _ => rfl

/-- The step is the press of a key that goes through the history of the editor. -/
def Step.goesThroughHistory (id : ViewId) : Step → Prop
  | press editor name _ =>
    editor = id ∧ (EditorKey.ofName name = .undo ∨ EditorKey.ofName name = .redo)
  | _ => False

/-- A step that puts nothing on record and leaves an editor without the mark has not edited it. -/
theorem Turn.unmarked (h : Turn a step id e e') (he : a.views[id]? = some e)
    (he' : a'.views[id]? = some e') (hstores : step.stores a a' id = false)
    (hunmarked : e'.modified = false) :
    e.modified = false ∧ e'.timeline = e.timeline ∧
      (¬ step.goesThroughHistory id → e'.content = e.content) := by
  have hmodified {e₁ : Editor} (hheld : e'.held = e₁.held) : e₁.modified = false :=
    (congrArg Held.modified hheld).symm.trans hunmarked
  have hcontent {e₁ : Editor} (hheld : e'.held = e₁.held) : e'.content = e₁.content :=
    congrArg (fun h : Held => h.buffer.text) hheld
  cases h with
  | retained hheld => exact ⟨hmodified hheld, timeline_congr hheld, fun _ => hcontent hheld⟩
  | pressed hstep hpressed hheld =>
    obtain ⟨hbefore, htimeline, hsame⟩ := hpressed.unmarked (hmodified hheld)
    refine ⟨hbefore, (timeline_congr hheld).trans htimeline, fun hkey => ?_⟩
    subst hstep
    exact (hcontent hheld).trans
      (hsame (fun h => hkey ⟨rfl, Or.inl h⟩) fun h => hkey ⟨rfl, Or.inr h⟩)
  | completed _ hheld => exact absurd (hmodified hheld) (by simp [modified_edited])
  | saved hstep hwritten => simp [Step.stores, hstep, hwritten] at hstores
  | @loaded t hopens hne hheld =>
    have hloaded : e'.content = t := (hcontent hheld).trans (Text.unlines_lines t)
    simp [Step.stores, hopens, he, he', hloaded, hne] at hstores

/-- **What one step keeps:** without the mark the text on record stays in the history. -/
theorem inHistory_of_take (htake : step.take a = .ok a') (he' : a'.views[id]? = some e')
    (h : ∀ e, a.views[id]? = some e → InHistory e (record id)) :
    InHistory e' (step.record a a' record id) := by
  unfold Step.record
  cases hstores : step.stores a a' id with
  | true => exact inHistory_stored he'
  | false =>
    intro hunmarked
    cases he : a.views[id]? with
    | none =>
      obtain ⟨hopens, -⟩ := (evolves_of_take htake).fresh he he'
      simp [Step.stores, hopens, he, he'] at hstores
    | some e =>
      obtain ⟨e₁, he₁, hturn⟩ := (evolves_of_take htake).turn he
      obtain rfl := Option.some.inj (he₁.symm.trans he')
      obtain ⟨hbefore, hsame, -⟩ := hturn.unmarked he he' hstores hunmarked
      rw [hsame]
      exact h e he hbefore

/-- **What the others of the steps keep:** without the mark the text on record is the present one.
-/
theorem faithful_of_take (htake : step.take a = .ok a') (he : a.views[id]? = some e)
    (he' : a'.views[id]? = some e') (hkey : ¬ step.goesThroughHistory id)
    (h : Faithful e (record id)) : Faithful e' (step.record a a' record id) := by
  unfold Step.record
  cases hstores : step.stores a a' id with
  | true => exact faithful_stored he'
  | false =>
    intro hunmarked
    obtain ⟨e₁, he₁, hturn⟩ := (evolves_of_take htake).turn he
    obtain rfl := Option.some.inj (he₁.symm.trans he')
    obtain ⟨hbefore, -, hsame⟩ := hturn.unmarked he he' hstores hunmarked
    exact (hsame hkey).trans (h hbefore)

theorem Recorded.inHistory (h : Recorded a record) (he : a.views[id]? = some e) :
    InHistory e (record id) := by
  induction h generalizing e with
  | mount => exact inHistory_stored he
  | step step _ htake ih => exact inHistory_of_take htake he fun e he => ih he

/--
**Only the history hides unsaved work.** In every state an editor without the mark has the text that
was last loaded into it or saved from it in its history, at the place where that was then, and holds
it unless what went through the history has left that place. Every other step keeps an editor
without the mark at the text on record: an edit or a completion sets the mark, and a save that fails
leaves it.
-/
theorem unmarked_text_in_history (h : Recorded a record) (he : a.views[id]? = some e) :
    (e.modified = false → e.timeline[(record id).depth]? = some (record id).text ∧
      (e.undo.length = (record id).depth → e.content = (record id).text)) ∧
    ∀ (step : Step) (a' : App) (e' : Editor), step.take a = .ok a' → a'.views[id]? = some e' →
      ¬ step.goesThroughHistory id → Faithful e (record id) →
      Faithful e' (step.record a a' record id) := by
  refine ⟨fun hunmarked => ?_, fun step a' e' htake he' hkey => faithful_of_take htake he he' hkey⟩
  have hrecord := h.inHistory he hunmarked
  refine ⟨hrecord, fun hplace => ?_⟩
  rw [← hplace, e.getElem?_timeline] at hrecord
  exact Option.some.inj hrecord

/-- Two characters are typed and saved, and the second one is undone. -/
def savedAndUndone : List Step :=
  [.press 0 "a" (some "a"), .press 0 "b" (some "b"), .save, .press 0 "ctrl+z" none]

theorem exists_savedAndUndone : ∃ (a : App) (record : ViewId → Stored) (e : Editor),
    Recorded a record ∧ a.views[0]? = some e ∧ e.modified = false ∧
      e.content = Text.ofString "a\x7b\x7d" ∧ record 0 = ⟨"ab\x7b\x7d", 2⟩ := by
  obtain ⟨a, ha, hrun⟩ := exists_eq_ok (r := startedOnEmpty) (f := fun a =>
    (run savedAndUndone a).toOption.map fun a' =>
      a'.views[0]?.map fun e => (e.modified, e.content))
    (y := some (some (false, Text.ofString "a\x7b\x7d"))) (by decide +kernel)
  have hrecord := eq_of_toOption_map ha (f := fun a => records savedAndUndone a a.stored 0)
    (y := ⟨"ab\x7b\x7d", 2⟩) (by decide +kernel)
  obtain ⟨a', ha', hview⟩ := exists_eq_ok hrun
  obtain ⟨e, he, hheld⟩ := Option.map_eq_some_iff.1 hview
  obtain ⟨hunmarked, hcontent⟩ := Prod.mk.inj hheld
  obtain ⟨new, hnew, rfl⟩ := exists_of_startedOnEmpty ha
  exact ⟨a', _, e, (Recorded.mount hnew).run ha', he, hunmarked, hcontent, hrecord⟩

theorem unmarked_text_in_history_saved : ∃ (a : App) (record : ViewId → Stored) (e : Editor),
    Recorded a record ∧ a.views[0]? = some e ∧ e.modified = false ∧
      e.timeline[2]? = some (Text.ofString "ab\x7b\x7d") := by
  obtain ⟨a, record, e, h, he, hunmarked, -, hrecord⟩ := exists_savedAndUndone
  have hhistory := ((unmarked_text_in_history h he).1 hunmarked).1
  rw [hrecord] at hhistory
  exact ⟨a, record, e, h, he, hunmarked, hhistory⟩

/-- **The mark does not tell that a saved edit has been undone:** the text is another one than was
saved. -/
theorem undo_hides_unsaved : ∃ (a : App) (record : ViewId → Stored) (e : Editor),
    Recorded a record ∧ a.views[0]? = some e ∧ e.modified = false ∧
      e.content ≠ (record 0).text := by
  obtain ⟨a, record, e, h, he, hunmarked, hcontent, hrecord⟩ := exists_savedAndUndone
  refine ⟨a, record, e, h, he, hunmarked, ?_⟩
  rw [hcontent, hrecord]
  decide +kernel

end App

end LangFile
