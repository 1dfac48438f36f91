import LangFile.Completion
import LangFile.Proofs.App.Course
import LangFile.Proofs.App.Reference

/-!
# Choosing a completion

A request for completion names a place, and the choice comes later. It takes out the two columns
before that place, whatever stands there then. So it replaces the trigger if that is still there, as
it is when the text has not changed since the request; after other edits it may take out something
else.

1. Every text may be edited (`Reachable.writable`).
2. A choice where the trigger stands (`exists_choose`).
3. The trigger at the time of the request (`hasTrigger_of_pressKey`), and as long as the version of
   the editor stays (`Advances`, `advances_of_run`).
4. All together (`choice_replaces_trigger`), and a choice that comes too late
   (`late_choice_removes_other_text`).
-/

namespace LangFile

open Editor

/-! ## The trigger -/

/-- The trigger stands before the place. -/
def Editor.Buffer.HasTrigger (b : Buffer) (place : Cursor) : Prop :=
  ∃ above left right below, Parts b.lines place above (left ++ Completion.trigger) right below

namespace Editor

variable {e e' : Editor} {k : KeyPress} {messages : List EditorMessage}

theorem Buffer.HasTrigger.of_lines_eq {b b' : Buffer} {place : Cursor} (h : b.HasTrigger place)
    (hlines : b'.lines = b.lines) : b'.HasTrigger place := by
  unfold HasTrigger
  rw [hlines]
  exact h

/-- When completion is wanted at the cursor, the trigger stands there. -/
theorem hasTrigger_of_pressKey {place : Cursor} {before : Text}
    (h : e.pressKey k = .ok (e', messages))
    (hwanted : .completionRequested place before ∈ messages) (hcursor : e'.cursor = place) :
    e'.buffer.HasTrigger place := by
  obtain ⟨performed, buffer, top, wanted, -, hclamp, rfl, rfl, hplace⟩ := exists_of_pressKey h
  have hmem : .completionRequested place before ∈ wanted := by
    refine (List.mem_append.1 hwanted).resolve_left fun hchange => ?_
    unfold changes at hchange
    simp only [List.mem_append] at hchange
    obtain (hchange | hchange) | hchange := hchange <;> split at hchange <;> simp at hchange
  obtain ⟨_, _, heq, hplace⟩ := hplace _ hmem
  obtain ⟨rfl, rfl⟩ := EditorMessage.completionRequested.inj heq
  unfold completionPlace? at hplace
  split at hplace
  · obtain ⟨left, hleft, hends⟩ := exists_of_map hplace
    split at hends
    · next htrigger =>
      obtain rfl := Option.some.inj hends
      obtain ⟨line, hline, rfl⟩ := exists_of_map hleft
      have hne : performed.buffer.lines ≠ [] := by
        intro hnil
        simp [Buffer.line, Offset.get?, hnil] at hline
      -- putting the cursor right has left it where it was, so it was inside its line
      obtain ⟨row, column, hrow, hcolumn, hput⟩ := Buffer.clamp_eq_ok performed.buffer hne
      obtain rfl := Except.ok.inj (hclamp.symm.trans hput)
      have hheld : performed.buffer.Holds performed.cursor :=
        ⟨row, column, hrow, hcursor.symm, hcolumn⟩
      obtain ⟨above, left, right, below, hparts⟩ := Buffer.holds_iff_exists_parts.1 hheld
      obtain rfl := Except.ok.inj ((Buffer.line_of_parts hparts).symm.trans hline)
      have hbefore : Offset.before (left ++ right) performed.cursor.column = left := by
        rw [hparts.place_eq, Offset.before_natCast, List.take_left]
      rw [hbefore] at htrigger
      obtain ⟨left, rfl⟩ := List.isSuffixOf_iff_suffix.1 htrigger
      exact ⟨above, left, right, below, hparts⟩
    · simp at hends
  · simp at hplace

/-! ## The version tells of changes -/

/-- The text is the same as before, or the version is a later one. -/
def Advances (e e' : Editor) : Prop :=
  e.version ≤ e'.version ∧ (e'.version = e.version → e'.buffer.lines = e.buffer.lines)

namespace Advances

theorem refl (e : Editor) : Advances e e := ⟨Nat.le_refl _, fun _ => rfl⟩

theorem trans {e'' : Editor} (h : Advances e e') (h' : Advances e' e'') : Advances e e'' := by
  refine ⟨Nat.le_trans h.1 h'.1, fun heq => ?_⟩
  have hmiddle : e'.version = e.version := Nat.le_antisymm (heq ▸ h'.1) h.1
  exact (h'.2 (heq.trans hmiddle.symm)).trans (h.2 hmiddle)

theorem of_held {e'' : Editor} (h : Advances e e') (hheld : e''.held = e'.held) :
    Advances e e'' := by
  have hversion : e''.version = e'.version := congrArg Held.version hheld
  have hbuffer : e''.buffer = e'.buffer := congrArg Held.buffer hheld
  unfold Advances
  rw [hversion, hbuffer]
  exact h

theorem of_lt (h : e.version < e'.version) : Advances e e' :=
  ⟨Nat.le_of_lt h, fun heq => absurd h (heq ▸ Nat.lt_irrefl _)⟩

end Advances

theorem lt_version_touch (e : Editor) : e.version < e.touch.version := Nat.lt_succ_self _

theorem advances_edited (e : Editor) (b : Buffer) : Advances e (e.edited b) :=
  .of_lt (lt_version_touch e)

theorem advances_loadText (e : Editor) (t : Text) : Advances e (e.loadText t) :=
  .of_lt (lt_version_touch e)

theorem Pressed.advances (h : Pressed k e e') : Advances e e' := by
  cases h with
  | passed buffer anchor status top hlines => exact ⟨Nat.le_refl _, fun _ => hlines⟩
  | edited => exact .of_lt (lt_version_touch e)
  | undone _ _ _ hundo =>
    rw [undoEdit_of_cons hundo]
    exact .of_lt (lt_version_touch e)
  | redone _ _ _ hredo =>
    rw [redoEdit_of_cons hredo]
    exact .of_lt (lt_version_touch e)

theorem Pressed.readOnly (h : Pressed k e e') : e'.readOnly = e.readOnly := by
  cases h with
  | passed | edited => rfl
  | undone _ _ _ hundo => rw [undoEdit_of_cons hundo]; rfl
  | redone _ _ _ hredo => rw [redoEdit_of_cons hredo]; rfl

end Editor

namespace App

variable {a a' : App} {step : Step} {id : ViewId} {e e' : Editor}

theorem Turn.advances (h : Turn a step id e e') : Advances e e' := by
  cases h with
  | retained hheld => exact (Advances.refl e).of_held hheld
  | pressed _ hpressed hheld => exact hpressed.advances.of_held hheld
  | completed _ hheld => exact (advances_edited e _).of_held hheld
  | saved _ _ hheld =>
    have hsame : Advances e { e with modified := false } := ⟨Nat.le_refl _, fun _ => rfl⟩
    exact hsame.of_held hheld
  | loaded _ _ hheld => exact (advances_loadText e _).of_held hheld

/-- **In the course of a run** the version of an editor tells whether its text has been changed. -/
theorem advances_of_run {steps : List Step} (hrun : run steps a = .ok a')
    (he : a.views[id]? = some e) : ∃ e', a'.views[id]? = some e' ∧ Advances e e' := by
  induction steps generalizing a e with
  | nil =>
    obtain rfl := Except.ok.inj hrun
    exact ⟨e, he, Advances.refl e⟩
  | cons step steps ih =>
    obtain ⟨next, htake, hrest⟩ := exists_of_run_cons hrun
    obtain ⟨e₁, he₁, hturn⟩ := (evolves_of_take htake).turn he
    obtain ⟨e', he', hadvances⟩ := ih hrest he₁
    exact ⟨e', he', hturn.advances.trans hadvances⟩

/-! ## Every text may be edited -/

theorem Turn.readOnly (h : Turn a step id e e') : e'.readOnly = e.readOnly := by
  cases h with
  | retained hheld | saved _ _ hheld | completed _ hheld | loaded _ _ hheld =>
    exact congrArg Held.readOnly hheld
  | pressed _ hpressed hheld => exact (congrArg Held.readOnly hheld).trans hpressed.readOnly

theorem IsFresh.readOnly (h : IsFresh e) : e.readOnly = false := by
  obtain ⟨d, column, hheld⟩ := h
  exact congrArg Held.readOnly hheld

theorem Reachable.writable (h : Reachable a) (he : a.views[id]? = some e) : e.readOnly = false := by
  induction h generalizing e with
  | mount hnew =>
    exact (isFresh_of_mount (views_openAll hnew rfl) (List.mem_of_getElem? he)).readOnly
  | @step before after step _ htake ih =>
    have hevolves := evolves_of_take htake
    cases hbefore : before.views[id]? with
    | none => exact (hevolves.fresh hbefore he).2.readOnly
    | some e₀ =>
      obtain ⟨e₁, he₁, hturn⟩ := hevolves.turn hbefore
      obtain rfl := Option.some.inj (he₁.symm.trans he)
      exact hturn.readOnly.trans (ih hbefore)

/-! ## The choice -/

/-- The buffers of all editors. -/
def buffers (a : App) : List Buffer := a.views.map (·.buffer)

/-- In one buffer a text has come in place of the trigger before the place; the others are as they
were. -/
def ReplacesTrigger (a a' : App) (id : ViewId) (place : Cursor) (t : Text) : Prop :=
  ∃ e above left right below, a.views[id]? = some e ∧
    Parts e.buffer.lines place above (left ++ Completion.trigger) right below ∧
    a'.buffers = a.buffers.set id (.around above (left ++ t) right below)

variable {place : Cursor} {choice : Text} {code : FormattingCode}

/-- Without a target there is nothing to be done. -/
theorem exists_choose_of_target_eq_none (hnone : a.outside.completions.target = none)
    (choice : Option Text) : ∃ a', a.choose choice = .ok a' ∧ a'.buffers = a.buffers := by
  refine ⟨a.endCompletion, ?_, (retains_endCompletion a).buffers⟩
  cases choice with
  | none => rfl
  | some i =>
    unfold choose insertCompletion
    rw [hnone]
    rfl

/-- **A choice puts the code in the place of the trigger,** if that stands at the target. -/
theorem exists_choose (hwritable : e.readOnly = false) (he : a.views[id]? = some e)
    (htarget : a.outside.completions.target = some (id, place))
    (hcode : a.chosenOffer choice = .ok code) (htrigger : e.buffer.HasTrigger place) :
    ∃ a', a.choose (some choice) = .ok a' ∧ ReplacesTrigger a a' id place code.sequence := by
  obtain ⟨above, left, right, below, hparts⟩ := htrigger
  have htwo : Completion.trigger.length = 2 := by decide
  have hstart : Parts e.buffer.lines ⟨place.row, place.column - 2⟩ above left
      (Completion.trigger ++ right) below := by
    refine ⟨by rw [hparts.lines_eq, List.append_assoc], ?_⟩
    rw [hparts.place_eq, List.length_append, htwo]
    simp
  let replaced := e.edited (.around above (left ++ code.sequence) right below)
  have hreplaced : e.replaceColumns place.row (place.column - 2) place.column code.sequence
      = .ok replaced := by
    unfold Editor.replaceColumns
    rw [if_neg (by simp [hwritable]),
      Buffer.replaceColumns_of_parts hstart hparts rfl code.sequence]
    rfl
  let inserted : App := commitText (a.modifyView id fun _ => replaced) id
  refine ⟨inserted.endCompletion, ?_, e, above, left, right, below, he, hparts, ?_⟩
  · unfold choose insertCompletion
    rw [htarget]
    dsimp only
    rw [hcode, he]
    dsimp only
    rw [hreplaced]
    rfl
  · have hretains := (retains_commitText (a.modifyView id fun _ => replaced) id).trans
      (retains_endCompletion inserted)
    refine hretains.buffers.trans ?_
    show (a.views.modify id fun _ => replaced).map (·.buffer) = _
    rw [← List.set_eq_modify, List.map_set]
    rfl

/-- A key is pressed in an editor that asks for completion at the place where the cursor then
stands. -/
def Requests (a : App) (id : ViewId) (name : Text) (produced : Option Text) (place : Cursor)
    (e' : Editor) : Prop :=
  ∃ e messages before, a.views[id]? = some e ∧
    e.pressKey (.ofName name produced) = .ok (e', messages) ∧
    .completionRequested place before ∈ messages ∧ e'.cursor = place

variable {name : Text} {produced : Option Text}

theorem Requests.hasTrigger (h : Requests a id name produced place e') :
    e'.buffer.HasTrigger place := by
  obtain ⟨e, messages, before, -, hpress, hwanted, hcursor⟩ := h
  exact hasTrigger_of_pressKey hpress hwanted hcursor

/-- After the key the editor is as the key leaves it. -/
theorem Requests.view (h : Requests a id name produced place e')
    (htake : (Step.press id name produced).take a = .ok a') : a'.views[id]? = some e' := by
  obtain ⟨e, messages, before, he, hpress, -, -⟩ := h
  have hpressed : a.actIn id (fun e => e.pressKey (.ofName name produced)) = .ok a' := htake
  unfold actIn at hpressed
  rw [he] at hpressed
  dsimp only at hpressed
  rw [hpress] at hpressed
  obtain rfl := Except.ok.inj hpressed
  rw [views_edit, List.getElem?_modify_eq, he]
  rfl

/--
**A choice replaces the trigger if that is still there.** Without a target, or when nothing is
chosen, all buffers stay as they are. When the trigger stands before the target, a choice puts the
code in its place and changes nothing else. So it does after anything that has happened since the
request, as long as the version of the editor is the one that it had then.
-/
theorem choice_replaces_trigger (h : Reachable a) :
    (∀ choice, a.outside.completions.target = none ∨ choice = none →
      ∃ a', a.choose choice = .ok a' ∧ a'.buffers = a.buffers) ∧
    (∀ id place e choice code, a.outside.completions.target = some (id, place) →
      a.views[id]? = some e → a.chosenOffer choice = .ok code → e.buffer.HasTrigger place →
      ∃ a', a.choose (some choice) = .ok a' ∧ ReplacesTrigger a a' id place code.sequence) ∧
    ∀ id name produced place asking steps (a' : App) (e' : Editor) choice code,
      Requests a id name produced place asking →
      run (.press id name produced :: steps) a = .ok a' → a'.views[id]? = some e' →
      e'.version = asking.version → a'.outside.completions.target = some (id, place) →
      a'.chosenOffer choice = .ok code →
      ∃ a'', a'.choose (some choice) = .ok a'' ∧ ReplacesTrigger a' a'' id place code.sequence := by
  refine ⟨fun choice hnothing => ?_, fun id place e choice code htarget he hcode htrigger =>
    exists_choose (h.writable he) he htarget hcode htrigger, ?_⟩
  · rcases hnothing with hnone | rfl
    · exact exists_choose_of_target_eq_none hnone choice
    · exact ⟨a.endCompletion, rfl, (retains_endCompletion a).buffers⟩
  · intro id name produced place asking steps a' e' choice code hrequest hrun he' hversion htarget
      hcode
    obtain ⟨next, htake, hrest⟩ := exists_of_run_cons hrun
    obtain ⟨e₁, he₁, hadvances⟩ := advances_of_run hrest (hrequest.view htake)
    obtain rfl := Option.some.inj (he₁.symm.trans he')
    have htrigger := hrequest.hasTrigger.of_lines_eq (hadvances.2 hversion)
    exact exists_choose ((h.run hrun).writable he') he' htarget hcode htrigger

theorem reachable_of_startedOnEmpty {steps : List Step}
    (h : startedOnEmpty.bind (run steps) = .ok a) : Reachable a := by
  cases hstarted : startedOnEmpty with
  | error fault =>
    rw [hstarted] at h
    injection h
  | ok start =>
    rw [hstarted] at h
    obtain ⟨new, hnew, rfl⟩ := exists_of_startedOnEmpty hstarted
    exact (Reachable.mount hnew).run h

/-- What the editor has told is handled, after the focus that it was given at the start. -/
def typedTrigger : List Step := .press 0 "&" (some "&") :: List.replicate 6 .handleFirst

/-- The code takes the place of the trigger when it is chosen at once. -/
theorem choice_replaces_trigger_typed : ∃ (a a' : App) (code : FormattingCode),
    Reachable a ∧ a.choose (some "0") = .ok a' ∧
      ReplacesTrigger a a' 0 ⟨0, 2⟩ code.sequence := by
  obtain ⟨start, hstart, hrun⟩ := exists_eq_ok
    (r := startedOnEmpty.bind (run [.press 0 "&" (some "&")]))
    (f := fun a => (run typedTrigger a).toOption.map fun a' =>
      (a'.outside.completions.target, a'.views[0]?.map (·.version),
        (a'.chosenOffer "0").toOption.map (·.char)))
    (y := some (some (0, ⟨0, 2⟩), some 2, some '0')) (by decide +kernel)
  have hpressed := eq_of_toOption_map hstart (f := fun a => a.views[0]?.map fun e =>
    (e.pressKey (.ofName "&" (some "&"))).toOption.map fun r =>
      (r.1.cursor, r.1.version, r.2.contains (.completionRequested ⟨0, 2⟩ "&&")))
    (y := some (some (⟨0, 2⟩, 2, true))) (by decide +kernel)
  obtain ⟨e, he, hpressed⟩ := Option.map_eq_some_iff.1 hpressed
  obtain ⟨⟨asking, messages⟩, hpress, hasking⟩ := exists_eq_ok hpressed
  obtain ⟨hcursor, hasking⟩ := Prod.mk.inj hasking
  obtain ⟨hversion, hwanted⟩ := Prod.mk.inj hasking
  obtain ⟨a, ha, htarget⟩ := exists_eq_ok hrun
  obtain ⟨htarget, hview⟩ := Prod.mk.inj htarget
  obtain ⟨hview, hoffered⟩ := Prod.mk.inj hview
  obtain ⟨e', he', hlater⟩ := Option.map_eq_some_iff.1 hview
  obtain ⟨code, hcode, -⟩ := exists_eq_ok hoffered
  have hrequest : Requests start 0 "&" (some "&") ⟨0, 2⟩ asking :=
    ⟨e, messages, "&&", he, hpress, by simpa using hwanted, hcursor⟩
  have hreachable := reachable_of_startedOnEmpty hstart
  obtain ⟨a', ha', hreplaces⟩ := (choice_replaces_trigger hreachable).2.2 0 "&" (some "&") ⟨0, 2⟩
    asking (List.replicate 6 .handleFirst) a e' "0" code hrequest ha he'
    (hlater.trans hversion.symm) htarget hcode
  exact ⟨a, a', code, hreachable.run ha, ha', hreplaces⟩

/-- The trigger is typed and what the editor has told is handled; then a character is put before the
trigger. -/
def typedBefore : List Step :=
  [.press 0 "&" (some "&")] ++ typedTrigger ++ [.press 0 "home" none, .press 0 "x" (some "x")]

/-- The trigger is typed on a second line; then all lines are taken out. -/
def takenOut : List Step :=
  [.press 0 "enter" none, .press 0 "&" (some "&")] ++ typedTrigger ++
    [.handleFirst, .handleFirst, .press 0 "ctrl+a" none, .press 0 "delete" none]

/--
**A choice may come too late.** The text has been edited since the request, and the choice takes out
another character than the trigger; or the line of the request is gone, and the choice fails.
-/
theorem late_choice_removes_other_text :
    (∃ (a a' : App) (code : FormattingCode),
      Reachable a ∧ a.outside.completions.target = some (0, ⟨0, 2⟩) ∧
        a.chosenOffer "0" = .ok code ∧ a.choose (some "0") = .ok a' ∧ a'.buffers ≠ a.buffers ∧
        ¬ ReplacesTrigger a a' 0 ⟨0, 2⟩ code.sequence) ∧
    ∃ (a : App) (code : FormattingCode),
      Reachable a ∧ a.outside.completions.target = some (0, ⟨1, 2⟩) ∧
        a.chosenOffer "0" = .ok code ∧ a.choose (some "0") = .error (.editor .noSuchRow) := by
  refine ⟨?_, ?_⟩
  · obtain ⟨a, ha, hlate⟩ := exists_eq_ok (r := startedOnEmpty.bind (run typedBefore))
      (f := fun a => (a.outside.completions.target, (a.chosenOffer "0").toOption.map (·.char)))
      (y := (some (0, ⟨0, 2⟩), some '0')) (by decide +kernel)
    have hbuffers := eq_of_toOption_map ha (f := fun a => a.buffers)
      (y := [{ lines := ["x&&\x7b\x7d"], cursor := ⟨0, 1⟩ }]) (by decide +kernel)
    have hchosen := eq_of_toOption_map ha
      (f := fun a => (a.choose (some "0")).toOption.map fun a' => a'.buffers)
      (y := some [{ lines := ["§0&\x7b\x7d"], cursor := ⟨0, 2⟩ }]) (by decide +kernel)
    obtain ⟨htarget, hoffered⟩ := Prod.mk.inj hlate
    obtain ⟨code, hcode, -⟩ := exists_eq_ok hoffered
    obtain ⟨a', ha', hremoved⟩ := exists_eq_ok hchosen
    refine ⟨a, a', code, reachable_of_startedOnEmpty ha, htarget, hcode, ha', ?_, ?_⟩
    · rw [hremoved, hbuffers]
      decide +kernel
    · rintro ⟨e, above, left, right, below, he, ⟨hlines, hplace⟩, -⟩
      have hview : some e.buffer = some { lines := ["x&&\x7b\x7d"], cursor := ⟨0, 1⟩ } := by
        have hzero := congrArg (fun l : List Buffer => l[0]?) hbuffers
        simpa [App.buffers, he] using hzero
      -- the columns before the place are the first two of the line, and that begins otherwise
      obtain ⟨hrow, hcolumn⟩ := Cursor.mk.inj hplace
      rw [List.length_append] at hcolumn
      have htwo : Completion.trigger.length = 2 := by decide
      obtain rfl : above = [] := List.length_eq_zero_iff.1 (by omega)
      obtain rfl : left = [] := List.length_eq_zero_iff.1 (by omega)
      rw [Option.some.inj hview] at hlines
      have hbegins : Completion.trigger <+: Text.ofString "x&&\x7b\x7d" :=
        ⟨right, (List.cons.inj hlines).1.symm⟩
      exact absurd hbegins (by decide +kernel)
  · obtain ⟨a, ha, hlate⟩ := exists_eq_ok (r := startedOnEmpty.bind (run takenOut))
      (f := fun a => (a.outside.completions.target, (a.chosenOffer "0").toOption.map (·.char)))
      (y := (some (0, ⟨1, 2⟩), some '0')) (by decide +kernel)
    obtain ⟨htarget, hoffered⟩ := Prod.mk.inj hlate
    obtain ⟨code, hcode, -⟩ := exists_eq_ok hoffered
    have hfails := eq_of_toOption_map ha (f := fun a => match a.choose (some "0") with
      | .ok _ => none
      | .error e => some e) (y := some (.editor .noSuchRow)) (by decide +kernel)
    refine ⟨a, code, reachable_of_startedOnEmpty ha, htarget, hcode, ?_⟩
    split at hfails
    · simp at hfails
    · next e he => rw [he, Option.some.inj hfails]

end App

end LangFile
