import LangFile.App.Actions

/-!
# What actions come down to

An action looks at the state first, and in most cases does one of a few simple things. Here each
action is opened once: what it has found, and what it then makes of the application.

1. Saving (`save_of_view`, `exists_of_save`).
2. Choosing a completion (`exists_of_choose`).
3. Opening a file (`reloadEditor_eq`, `exists_of_openInNewColumn`), making one
   (`exists_of_newLanguageFile`), and answering a prompt (`exists_of_submit`, `exists_of_promptKey`).
-/

namespace LangFile.App

open Editor

variable {a a' : App} {path : Text} {id : ViewId} {e : Editor}

/-! ## Saving -/

/-- The application once the text of an editor has been written to the file at a path. -/
def saved (a : App) (id : ViewId) (disk : Disk) (path : Text) : App :=
  tell (Session.modifyView { a with disk } id fun e => { e with modified := false })
    ("Saved " ++ (Path.ofText path).name)

/-- The application once a save has failed, with the disk that it has left behind. -/
def notSaved (a : App) (disk : Disk) (reason : String) : App :=
  tell { a with disk } ("Cannot save: " ++ Text.ofString reason) true

/-- Saving writes the text that is in the active editor to the file of its document. -/
theorem save_of_view (hactive : a.active = some id) (hview : a.views[id]? = some e)
    (hdocument : e.document = some path) :
    a.save = match a.disk.writeText (.ofText path) e.content with
      | (_, .error (.path fault _)) => .ok (a.notSaved a.disk fault.reason)
      | (disk, .error (.writing fault)) => .ok (a.notSaved disk fault.reason)
      | (_, .error fault) => .error (.file fault)
      | (disk, .ok ()) =>
        .ok (if (Path.ofText path).name = a.referenceName then (a.saved id disk path).validateAll
          else a.saved id disk path) := by
  have hopen : (a.active.bind fun id => (a.views[id]?.bind (·.document)).map fun path => (id, path))
      = some (id, path) := by
    simp [hactive, hview, hdocument]
  have hcontent : (a.views[id]?.map (·.content)).getD [] = e.content := by
    rw [hview]
    rfl
  unfold save
  rw [hopen]
  dsimp only
  rw [hcontent]
  rfl

/-- Without an active editor on a document nothing is saved; a save that fails may have changed the
disk. -/
theorem exists_of_save (h : a.save = .ok a') :
    a' = a ∨ (∃ disk reason, a' = a.notSaved disk reason) ∨
      ∃ id e path disk, a.active = some id ∧ a.views[id]? = some e ∧ e.document = some path ∧
        a.disk.writeText (.ofText path) e.content = (disk, .ok ()) ∧
        (a' = a.saved id disk path ∨ a' = (a.saved id disk path).validateAll) := by
  cases hopen : a.active.bind fun id =>
      (a.views[id]?.bind (·.document)).map fun path => (id, path) with
  | none =>
    unfold save at h
    rw [hopen] at h
    exact .inl (Except.ok.inj h).symm
  | some p =>
    obtain ⟨id, hactive, hshows⟩ := Option.bind_eq_some_iff.1 hopen
    obtain ⟨path, hpath, -⟩ := Option.map_eq_some_iff.1 hshows
    obtain ⟨e, hview, hdocument⟩ := Option.bind_eq_some_iff.1 hpath
    rw [save_of_view hactive hview hdocument] at h
    split at h
    · exact .inr (.inl ⟨_, _, (Except.ok.inj h).symm⟩)
    · exact .inr (.inl ⟨_, _, (Except.ok.inj h).symm⟩)
    · injection h
    · next disk hwrite =>
      refine .inr (.inr ⟨id, e, path, disk, hactive, hview, hdocument, hwrite, ?_⟩)
      split at h
      · exact .inr (Except.ok.inj h).symm
      · exact .inl (Except.ok.inj h).symm

/-! ## Completions -/

/-- A choice replaces the two columns before the place where completion was asked for, if the editor
is there, and the list is closed. -/
theorem exists_of_choose {choice : Option Text} (h : a.choose choice = .ok a') :
    a' = a.endCompletion ∨ ∃ text id place code e e', choice = some text ∧
      a.outside.completions.target = some (id, place) ∧ a.chosenOffer text = .ok code ∧
      a.views[id]? = some e ∧
      e.replaceColumns place.row (place.column - 2) place.column code.sequence = .ok e' ∧
      a' = endCompletion (commitText (a.modifyView id fun _ => e') id) := by
  unfold choose at h
  split at h
  · exact .inl (Except.ok.inj h).symm
  · next text =>
    unfold insertCompletion at h
    split at h
    · exact .inl (Except.ok.inj h).symm
    · next id place htarget =>
      split at h
      · injection h
      · exact .inl (Except.ok.inj h).symm
      · next code e hcode he =>
        split at h
        · injection h
        · next e' hreplaced =>
          exact .inr ⟨text, id, place, code, e, e', rfl, htarget, hcode, he, hreplaced,
            (Except.ok.inj h).symm⟩

/-! ## Files -/

/-- The user is asked for a path, or told why not. -/
theorem exists_of_askForTarget (h : a.askForTarget = .ok a') :
    (∃ message, a' = a.tell message true) ∨ ∃ p, a' = a.ask p := by
  unfold askForTarget at h
  split at h
  · exact .inl ⟨_, (Except.ok.inj h).symm⟩
  · split at h
    · injection h
    · exact .inr ⟨_, (Except.ok.inj h).symm⟩

/-- An editor with another text than its document is given that of the document. -/
theorem reloadEditor_eq (a : App) (id : ViewId) (d : Document) :
    (∀ e, a.views[id]? = some e → e.content = d.text) ∧ a.reloadEditor id d = a ∨
    ∃ e, a.views[id]? = some e ∧ e.content ≠ d.text ∧
      a.reloadEditor id d = Session.decorateVisible (a.modifyView id fun e =>
        (e.loadText d.text).setFindings (a.findings d.path)) := by
  unfold reloadEditor
  cases he : a.views[id]? with
  | none => exact .inl ⟨by simp, rfl⟩
  | some e =>
    dsimp only
    split
    · next hsame => exact .inl ⟨fun e₁ he₁ => Option.some.inj he₁ ▸ hsame, rfl⟩
    · next hne => exact .inr ⟨e, rfl, hne, rfl⟩

/-- A document gets an editor of its own behind the others, and that the focus. -/
def openEditor (a : App) (d : Document) : App :=
  let a := addEditor a d a.views.length
  let a := a.setVisible Session.emit (editors a)
  requestFocus a (a.views.length - 1)

/-- A file that can be loaded is opened; its document is shown in its editor, or in a new one. -/
theorem exists_of_openInNewColumn (h : a.openInNewColumn path = .ok a') :
    ∃ (text : Text) (opened : App), a.disk.loadText (.ofText path) = .ok text ∧
      a.openDocument Session.emit path text = opened ∧
      (opened.document? (Path.ofText path).toText = none ∧ a' = opened ∨
        ∃ d, opened.document? (Path.ofText path).toText = some d ∧
          ((∃ (id : ViewId) (e : Editor), opened.views[id]? = some e ∧ e.document = some d.path ∧
              a' = (opened.reloadEditor id d).requestFocus id) ∨
            (∀ e ∈ opened.views, e.document ≠ some d.path) ∧ a' = opened.openEditor d)) := by
  unfold App.openInNewColumn at h
  split at h
  · injection h
  · next text htext =>
    dsimp only at h
    refine ⟨text, _, htext, rfl, ?_⟩
    generalize a.openDocument Session.emit path text = opened at h ⊢
    split at h
    · next hnone => exact .inl ⟨hnone, (Except.ok.inj h).symm⟩
    · next d hd =>
      refine .inr ⟨d, hd, ?_⟩
      split at h
      · next id hid =>
        obtain ⟨hlt, hdocument, -⟩ := List.findIdx?_eq_some_iff_getElem.1 hid
        exact .inl ⟨id, _, List.getElem?_eq_getElem hlt, of_decide_eq_true hdocument,
          (Except.ok.inj h).symm⟩
      · next hnone =>
        refine .inr ⟨fun e he => ?_, (Except.ok.inj h).symm⟩
        exact of_decide_eq_false (List.findIdx?_eq_none_iff.1 hnone e he)

/-- A language file that is made is opened; otherwise the user is told or asked something. -/
theorem exists_of_newLanguageFile {target : Text} {overwrite : Bool}
    (h : a.newLanguageFile target overwrite = .ok a') :
    a' = a ∨ ∃ (made : App) (reply : Reply),
      Session.newLanguageFile Session.emit (.ofText target) overwrite a = .ok (made, reply) ∧
      ((∃ p, reply.ok = true ∧ reply.path = some p ∧
          (tell made reply.message).openInNewColumn p.toText = .ok a') ∨
        (reply.ok = true → reply.path = none) ∧
          ((∃ isError, a' = made.tell reply.message isError) ∨ ∃ p, a' = made.ask p)) := by
  unfold App.newLanguageFile at h
  split at h
  · exact .inl (Except.ok.inj h).symm
  · split at h
    · injection h
    · next made reply hmade =>
      refine .inr ⟨made, reply, hmade, ?_⟩
      split at h
      · next p hok hpath => exact .inl ⟨p, hok, hpath, h⟩
      · next hok hpath =>
        exact .inr ⟨fun _ => hpath, .inl ⟨_, (Except.ok.inj h).symm⟩⟩
      · next hok _ =>
        refine .inr ⟨fun hyes => absurd hyes (by simp [hok]), ?_⟩
        split at h
        · exact .inl ⟨_, (Except.ok.inj h).symm⟩
        · exact .inr ⟨_, (Except.ok.inj h).symm⟩
      · next hok hpath =>
        exact .inr ⟨fun _ => hpath, .inl ⟨_, (Except.ok.inj h).symm⟩⟩

/-- What is confirmed in a prompt for a path is the target of a language file. -/
theorem exists_of_submit {value : Text} (h : a.submit value = .ok a') :
    a' = a ∨ a.popPrompt.newLanguageFile (Text.trim value) false = .ok a' := by
  unfold App.submit at h
  split at h
  · exact .inr h
  · exact .inl (Except.ok.inj h).symm

/-- A prompt is left alone or taken away, and a language file may then be made. -/
theorem exists_of_promptKey {key : Text} (h : a.promptKey key = .ok a') :
    a' = a ∨ a' = a.popPrompt ∨ ∃ target, a.popPrompt.newLanguageFile target true = .ok a' := by
  unfold App.promptKey at h
  split at h
  · exact .inr (.inl (Except.ok.inj h).symm)
  · next target _ =>
    split at h
    · exact .inr (.inr ⟨target, h⟩)
    · split at h
      · exact .inr (.inl (Except.ok.inj h).symm)
      · exact .inl (Except.ok.inj h).symm
  · exact .inl (Except.ok.inj h).symm

end LangFile.App
