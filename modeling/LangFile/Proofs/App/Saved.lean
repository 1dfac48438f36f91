import LangFile.Proofs.App.Choice
import LangFile.Proofs.App.Opened
import LangFile.Proofs.App.Happening
import LangFile.Proofs.Editor.Storable

/-!
# What is saved is read back

Texts come into the application from files, from keys and from completions, and from nowhere else,
and each of them can be stored. So in every state everything that an editor holds can be stored, its
history included, and what is saved is what the file is loaded with afterwards, unless the write
breaks off.

1. Applications that hold only what can be stored (`IsStorable`), and what keeps them so: changes of
   documents, opening files, and all other steps (`IsStorable.take`).
2. Runs in which any text of a file may take the place of what is in an editor (`Edited`), and that
   they reach nothing else (`Edited.isStorable`).
3. What a save does when its write is stored (`exists_saves`) and when it breaks off
   (`exists_failsToSave_broken`), and all together (`save_lossless`).
-/

namespace LangFile

open Editor

theorem FormattingCode.isStorable_sequence (code : FormattingCode) : code.sequence.IsStorable := by
  cases code <;> decide

theorem Editor.IsStorable.of_held {e e' : Editor} (h : e.IsStorable) (hheld : e'.held = e.held) :
    e'.IsStorable := by
  simp only [held, Held.mk.injEq] at hheld
  obtain ⟨-, -, -, hbuffer, -, -, hundo, hredo, -⟩ := hheld
  exact h.of_eq (congrArg Buffer.lines hbuffer) hundo hredo

theorem Editor.IsStorable.ofDocument {d : Document} (h : d.text.IsStorable) (column : Int) :
    (Editor.ofDocument d column).IsStorable :=
  ⟨.ofText h, List.forall_mem_nil _⟩

namespace App

variable {a a' : App} {path text : Text} {id : ViewId} {step : Step}

/-! ## What is held can be stored -/

/-- Every document, every editor and everything in its history can be stored. -/
structure IsStorable (a : App) : Prop where
  documents : ∀ d ∈ a.documents, d.text.IsStorable
  views : ∀ e ∈ a.views, e.IsStorable

namespace IsStorable

/-- Documents stay, and so does what the editors hold. -/
theorem of_retains (h : a.IsStorable) (hdocuments : a'.documents = a.documents)
    (hviews : Retains a a') : a'.IsStorable where
  documents := by
    rw [hdocuments]
    exact h.documents
  views e' he' := by
    obtain ⟨id, hid⟩ := List.mem_iff_getElem?.1 he'
    obtain ⟨e, he, hheld⟩ := hviews.symm.exists_view hid
    exact (h.views e (List.mem_of_getElem? he)).of_held hheld.symm

theorem modifyView (h : a.IsStorable) {f : Editor → Editor}
    (hf : ∀ e, a.views[id]? = some e → (f e).IsStorable) : IsStorable (a.modifyView id f) where
  documents := h.documents
  views e' he' := by
    obtain ⟨i, hi⟩ := List.mem_iff_getElem?.1 he'
    have hmodified : (a.views.modify id f)[i]? = some e' := hi
    rw [List.getElem?_modify] at hmodified
    obtain ⟨e, he, rfl⟩ := Option.map_eq_some_iff.1 hmodified
    split
    · next heq => exact hf e (heq ▸ he)
    · exact h.views e (List.mem_of_getElem? he)

/-! ### Documents -/

theorem withText (h : a.IsStorable) (d : Document) (ht : text.IsStorable) :
    (a.withText d text).IsStorable where
  documents d' hd' := by
    obtain ⟨old, hold, rfl⟩ := List.mem_map.1 hd'
    split
    · rw [Document.text_setText]
      exact ht
    · exact h.documents old hold
  views := h.views

theorem updateDocument (h : a.IsStorable) (hhears : a.HearsFindings) (path : Text)
    (ht : text.IsStorable) : IsStorable (a.updateDocument Session.emit path text) := by
  cases hd : a.document? path with
  | none =>
    unfold Session.updateDocument
    rwa [hd]
  | some d =>
    by_cases hne : d.text = text
    · unfold Session.updateDocument
      rw [hd]
      dsimp only
      rwa [if_pos hne]
    · refine (h.withText d ht).of_retains (refreshes_updateDocument hhears hd hne).frame.documents ?_
      exact retains_updateDocument a path text

theorem commitText (h : a.IsStorable) (hhears : a.HearsFindings) (id : ViewId) :
    IsStorable (a.commitText id) := by
  unfold App.commitText
  split
  · exact h
  · next e he =>
    split
    · exact h
    · exact h.updateDocument hhears _ (h.views e (List.mem_of_getElem? he)).content

theorem openDocument (h : a.IsStorable) (hhears : a.HearsFindings) (ht : text.IsStorable) :
    IsStorable (a.openDocument Session.emit path text) := by
  cases hd : a.document? (Path.ofText path).toText with
  | some d => rwa [openDocument_of_document? text hd]
  | none =>
    have hadded : (a.withDocument (.new path text)).IsStorable := by
      refine ⟨fun d hd => ?_, h.views⟩
      rcases List.mem_append.1 hd with hold | hnew
      · exact h.documents d hold
      · obtain rfl := List.mem_singleton.1 hnew
        exact ht
    exact hadded.of_retains (refreshes_openDocument hhears text hd).frame.documents
      (retains_openDocument a path text)

/-! ### Opening files -/

theorem addEditor (h : a.IsStorable) {d : Document} (hd : d.text.IsStorable) (column : Nat) :
    IsStorable (a.addEditor d column) where
  documents := h.documents
  views e he := by
    rcases List.mem_append.1 he with hold | hnew
    · exact h.views e hold
    · obtain rfl := List.mem_singleton.1 hnew
      exact (Editor.IsStorable.ofDocument hd column).of_held rfl

theorem reloadEditor (h : a.IsStorable) {d : Document} (hd : d.text.IsStorable) (id : ViewId) :
    IsStorable (a.reloadEditor id d) := by
  rcases a.reloadEditor_eq id d with ⟨-, heq⟩ | ⟨_, -, -, heq⟩
  · rwa [heq]
  · rw [heq]
    have hloaded : IsStorable (a.modifyView id fun e =>
        (e.loadText d.text).setFindings (a.findings d.path)) := h.modifyView fun e he =>
      ((h.views e (List.mem_of_getElem? he)).loadText hd).of_held rfl
    exact hloaded.of_retains (beside_decorateVisible _).documents (retains_decorateVisible _)

theorem openEditor (h : a.IsStorable) (hhears : a.HearsFindings) {d : Document}
    (hd : d.text.IsStorable) : (a.openEditor d).IsStorable := by
  have hadded := h.addEditor hd a.views.length
  have hshown := refreshes_setVisible (a := App.addEditor a d a.views.length)
    (hhears.of_signal rfl) (editors (App.addEditor a d a.views.length))
  exact (hadded.of_retains hshown.frame.documents (retains_setVisible _ _)).of_retains rfl
    (retains_requestFocus _ _)

/-- **What a file is opened with can be stored.** -/
theorem openInNewColumn (h : a.IsStorable) (hhears : a.HearsFindings)
    (hopened : a.openInNewColumn path = .ok a') : a'.IsStorable := by
  obtain ⟨text, opened, htext, rfl, hshown⟩ := exists_of_openInNewColumn hopened
  have hready : IsStorable (a.openDocument Session.emit path text) :=
    h.openDocument hhears (Disk.isStorable_of_loadText htext)
  rcases hshown with ⟨-, rfl⟩ | ⟨d, hd, hshown⟩
  · exact hready
  · have ht := hready.documents d (Session.mem_of_document? hd)
    rcases hshown with ⟨id, e, -, -, rfl⟩ | ⟨-, rfl⟩
    · exact (hready.reloadEditor ht id).of_retains rfl (retains_requestFocus _ id)
    · exact hready.openEditor (hhears.of_signal
        (Session.updates_edit_emit (.openDocument path text) a).signal) ht

/-- The text of a language file that is made is read back from the disk. -/
theorem making {target : Path} {overwrite : Bool} {made : App} {reply : Reply} (h : a.IsStorable)
    (hhears : a.HearsFindings)
    (hmade : Session.newLanguageFile Session.emit target overwrite a = .ok (made, reply)) :
    made.IsStorable ∧ made.HearsFindings := by
  have hmaking := Session.making_newLanguageFile Session.emit target overwrite a
  rw [hmade] at hmaking
  have hdisk (disk : Disk) : App.IsStorable { a with disk } := ⟨h.documents, h.views⟩
  cases hmaking with
  | noDocument | taken | unparsed | blocked => exact ⟨h, hhears⟩
  | unencodable | brokenOff => exact ⟨hdisk _, hhears.of_signal rfl⟩
  | @made _ content place bytes _ _ _ hplace hbytes =>
    -- the document gets the text that its file is now loaded with
    have ht := Disk.isStorable_of_loadText (Disk.loadText_put hplace hbytes)
    let written : App := { a with disk := a.disk.put place (.file bytes) }
    have hwritten : written.IsStorable := hdisk _
    refine ⟨hwritten.updateDocument (hhears.of_signal rfl) _ ht, hhears.of_signal ?_⟩
    exact (Session.updates_edit_emit
      (.updateDocument target.toText (normalizeLineEnds content)) written).signal

theorem newLanguageFile {target : Text} {overwrite : Bool} (h : a.IsStorable)
    (hhears : a.HearsFindings) (hmade : a.newLanguageFile target overwrite = .ok a') :
    a'.IsStorable := by
  rcases exists_of_newLanguageFile hmade with rfl | ⟨made, reply, hmaking, hend⟩
  · exact h
  · obtain ⟨hready, hhears'⟩ := h.making hhears hmaking
    rcases hend with ⟨p, -, -, hopened⟩ | ⟨-, ⟨isError, rfl⟩ | ⟨p, rfl⟩⟩
    · have htold : IsStorable (tell made reply.message) := hready.of_retains rfl rfl
      exact htold.openInNewColumn (hhears'.of_signal rfl) hopened
    · exact hready.of_retains rfl rfl
    · exact hready.of_retains rfl rfl

theorem popPrompt (h : a.IsStorable) : a.popPrompt.IsStorable := h.of_retains rfl rfl

theorem submit {value : Text} (h : a.IsStorable) (hhears : a.HearsFindings)
    (hsubmitted : a.submit value = .ok a') : a'.IsStorable := by
  rcases exists_of_submit hsubmitted with rfl | hmade
  · exact h
  · exact h.popPrompt.newLanguageFile (hhears.of_signal rfl) hmade

theorem promptKey {key : Text} (h : a.IsStorable) (hhears : a.HearsFindings)
    (hpressed : a.promptKey key = .ok a') : a'.IsStorable := by
  rcases exists_of_promptKey hpressed with rfl | rfl | ⟨target, hmade⟩
  · exact h
  · exact h.popPrompt
  · exact h.popPrompt.newLanguageFile (hhears.of_signal rfl) hmade

/-! ### Keys and completions -/

theorem press {name : Text} {produced : Option Text} (h : a.IsStorable)
    (hpressed : (Step.press id name produced).take a = .ok a') : a'.IsStorable := by
  have hacted : a.actIn id (fun e => e.pressKey (.ofName name produced)) = .ok a' := hpressed
  rcases exists_of_actIn hacted with rfl | ⟨e, e', messages, he, hkey, rfl⟩
  · exact h
  · have hview : IsStorable (a.modifyView id fun _ => e') := h.modifyView fun _ _ =>
      (h.views e (List.mem_of_getElem? he)).pressKey hkey
    rw [edit_eq]
    exact hview.of_retains rfl rfl

theorem choose {choice : Option Text} (h : a.IsStorable) (hhears : a.HearsFindings)
    (hchosen : a.choose choice = .ok a') : a'.IsStorable := by
  have hended {b : App} (hb : b.IsStorable) : b.endCompletion.IsStorable :=
    hb.of_retains (beside_endCompletion b).documents (retains_endCompletion b)
  rcases exists_of_choose hchosen with
    rfl | ⟨text, id, place, code, e, e', -, -, -, he, hreplaced, rfl⟩
  · exact hended h
  · have hview : IsStorable (a.modifyView id fun _ => e') := h.modifyView fun _ _ =>
      (h.views e (List.mem_of_getElem? he)).replaceColumns code.isStorable_sequence hreplaced
    exact hended (hview.commitText (hhears.of_signal rfl) id)

end IsStorable

/-! ### All steps -/

/-- The step may put a text into an editor. -/
def Step.bringsText : Step → Bool
  | press _ _ _ | choose _ => true
  | step => step.opensFiles

theorem Step.opensFiles_of_bringsText (h : step.bringsText = false) : step.opensFiles = false := by
  cases step <;> first | rfl | cases h

namespace IsStorable

/-- The other steps leave the editors their texts; a document may get that of its editor. -/
theorem quiet (h : a.IsStorable) (hhears : a.HearsFindings) (hstep : step.bringsText = false)
    (hhappens : Happens a step a') (hevolves : Evolves step a a') : a'.IsStorable := by
  have hnot : step.opensFiles ≠ true := by simp [step.opensFiles_of_bringsText hstep]
  refine ⟨?_, fun e' he' => ?_⟩
  · -- only what is handled may change a document, and it then gets the text of an editor
    have hsame (hdocuments : a'.documents = a.documents) : ∀ d ∈ a'.documents, d.text.IsStorable :=
      hdocuments ▸ h.documents
    cases hhappens with
    | refreshed h' => exact hsame h'.frame.documents
    | pressed | chosen => cases hstep
    | @committed id rest _ =>
      have hqueue : (a.withQueue rest).IsStorable := h.of_retains rfl rfl
      exact (hqueue.commitText (hhears.of_signal rfl) id).documents
    | @selected id rest _ =>
      have hemitted := refreshes_emit (a := a.withQueue rest) (e := .selected id)
        (hhears.of_signal rfl) (by simp [Event.topic])
      exact hsame hemitted.frame.documents
    | handled _ _ _ h' => exact hsame h'.frame.documents
    | opened hyes => exact absurd hyes hnot
    | watched _ hspares | unwatched _ hspares => exact hsame hspares.documents
  · obtain ⟨id, hid⟩ := List.mem_iff_getElem?.1 he'
    cases he : a.views[id]? with
    | none =>
      exact absurd (hevolves.fresh he hid).1 hnot
    | some e =>
      have hstorable := h.views e (List.mem_of_getElem? he)
      obtain ⟨e₁, he₁, hturn⟩ := hevolves.turn he
      obtain rfl := Option.some.inj (he₁.symm.trans hid)
      cases hturn with
      | retained hheld => exact hstorable.of_held hheld
      | pressed heq | completed heq =>
        rw [heq] at hstep
        cases hstep
      | saved _ _ hheld =>
        have hunmarked : Editor.IsStorable { e with modified := false } :=
          hstorable.of_eq rfl rfl rfl
        exact hunmarked.of_held hheld
      | loaded hyes => exact absurd hyes hnot

/-- **What one step keeps.** -/
theorem take (h : a.IsStorable) (hwired : a.IsWired) (hpaired : a.IsPaired)
    (htake : step.take a = .ok a') : a'.IsStorable := by
  have hquiet (hstep : step.bringsText = false) : a'.IsStorable :=
    h.quiet hwired.hears hstep (happens_of_take hwired hpaired htake) (evolves_of_take htake)
  cases step with
  | press id name produced => exact h.press htake
  | choose choice => exact h.choose hwired.hears htake
  | submit value => exact h.submit hwired.hears htake
  | promptKey key => exact h.promptKey hwired.hears htake
  | openInNewColumn path => exact h.openInNewColumn hwired.hears htake
  | _ => exact hquiet rfl

end IsStorable

/-- **What the first editors hold was loaded.** -/
theorem isStorable_mount {disk : Disk} {files : List Text} {referenceName : Text}
    {width height : Nat} (hnew : App.new disk files referenceName width height = .ok a) :
    a.mount.IsStorable := by
  obtain ⟨start, hstart, hdocuments, hmounted⟩ := exists_isStart hnew
  have hloaded : ∀ d ∈ start.documents, d.text.IsStorable := by
    rw [hdocuments]
    intro d hd
    rcases (documents_openAll hnew rfl).1 d hd with hnone | ⟨path, text, htext, rfl⟩
    · exact absurd hnone List.not_mem_nil
    · exact Disk.isStorable_of_loadText htext
  refine ⟨hmounted.frame.documents ▸ hloaded, fun e he => ?_⟩
  obtain ⟨id, hid⟩ := List.mem_iff_getElem?.1 he
  obtain ⟨e₁, he₁, hcore⟩ := hmounted.frame.exists_view_before hid
  obtain ⟨d, hd, column, width, height, rfl⟩ :=
    hstart.editors e₁ (List.mem_of_getElem? he₁)
  -- to bring everything up to date leaves texts alone, and the history of a new editor is empty
  obtain ⟨d', column', hfresh⟩ := isFresh_of_mount (views_openAll hnew rfl) he
  have hbuffer : Buffer.ofText d.text = e.buffer := congrArg Core.buffer hcore
  have hundo : e.undo = [] := congrArg Held.undo hfresh
  have hredo : e.redo = [] := congrArg Held.redo hfresh
  exact (Editor.IsStorable.ofDocument (hloaded d hd) column).of_eq
    (congrArg Buffer.lines hbuffer.symm) hundo hredo

/-! ## Runs -/

/-- The states of an application in which, besides, what any file can be loaded with may at any time
take the place of some columns of an editor, or of its whole text. No other text can come back from
a file. -/
inductive Edited : App → Prop
  | mount {disk : Disk} {files : List Text} {referenceName : Text} {width height : Nat} {a : App} :
    App.new disk files referenceName width height = .ok a → Edited a.mount
  | step {a a' : App} (step : Step) : Edited a → step.take a = .ok a' → Edited a'
  | replaceColumns {a : App} {disk : Disk} {p : Path} {t : Text} {id : ViewId} {e e' : Editor}
    {row start stop : Int} :
    Edited a → disk.loadText p = .ok t → a.views[id]? = some e →
    e.replaceColumns row start stop t = .ok e' → Edited (a.modifyView id fun _ => e')
  | loadText {a : App} {disk : Disk} {p : Path} {t : Text} (id : ViewId) :
    Edited a → disk.loadText p = .ok t → Edited (a.modifyView id fun e => e.loadText t)

theorem Reachable.edited (h : Reachable a) : Edited a := by
  induction h with
  | mount hnew => exact .mount hnew
  | step step _ htake ih => exact .step step ih htake

theorem Edited.keeps (h : Edited a) : a.IsWired ∧ a.IsPaired := by
  induction h with
  | mount hnew => exact (Reachable.mount hnew).keeps
  | step step _ htake ih => exact (happens_of_take ih.1 ih.2 htake).keeps ih.1 ih.2
  | replaceColumns _ _ he hreplaced ih =>
    exact ⟨ih.1.modifyView _ _, ih.2.replace he (staysPut_of_replaceColumns hreplaced)⟩
  | loadText id _ _ ih => exact ⟨ih.1.modifyView id _, ih.2.modifyView fun _ _ => rfl⟩

/-- **In every state** all that is held can be stored. -/
theorem Edited.isStorable (h : Edited a) : a.IsStorable := by
  induction h with
  | mount hnew => exact isStorable_mount hnew
  | step step hbefore htake ih => exact ih.take hbefore.keeps.1 hbefore.keeps.2 htake
  | replaceColumns _ htext he hreplaced ih =>
    exact ih.modifyView fun _ _ => (ih.views _ (List.mem_of_getElem? he)).replaceColumns
      (Disk.isStorable_of_loadText htext) hreplaced
  | loadText id _ htext ih =>
    exact ih.modifyView fun e he => (ih.views e (List.mem_of_getElem? he)).loadText
      (Disk.isStorable_of_loadText htext)

/-! ## Saving -/

/-- The text of an editor is what the file at a path is loaded with, nothing else on the disk has
changed, and the editor has its text and is not marked. -/
structure Saves (a : App) (id : ViewId) (e : Editor) (path : Text) (l : Location) (a' : App) :
    Prop where
  text : a'.disk.loadText (.ofText path) = .ok e.content
  others {m : Location} : m ≠ l → a'.disk.node? m = a.disk.node? m
  editor : ∃ e', a'.views[id]? = some e' ∧ e'.content = e.content ∧ e'.modified = false

variable {e : Editor} {l : Location}

theorem Saves.of_retains {b : App} (h : Saves a id e path l b) (hdisk : a'.disk = b.disk)
    (hviews : Retains b a') : Saves a id e path l a' where
  text := hdisk ▸ h.text
  others hm := hdisk ▸ h.others hm
  editor := by
    obtain ⟨e₁, he₁, hcontent, hmodified⟩ := h.editor
    obtain ⟨e', he', hheld⟩ := hviews.exists_view he₁
    exact ⟨e', he', (congrArg (fun h : Held => h.buffer.text) hheld).trans hcontent,
      (congrArg Held.modified hheld).trans hmodified⟩

/-- A save has failed: documents and editors are as before, with their marks, and the user is told
why. -/
structure FailsToSave (a : App) (reason : String) (a' : App) : Prop where
  documents : a'.documents = a.documents
  views : a'.views = a.views
  notes : a'.outside.notes
    = a.outside.notes ++ [⟨true, "Cannot save: " ++ Text.ofString reason⟩]

theorem failsToSave_notSaved (a : App) (disk : Disk) (reason : String) :
    FailsToSave a reason (a.notSaved disk reason) :=
  ⟨rfl, rfl, rfl⟩

section

variable {bytes : List UInt8}

/-- What can be stored is saved where a file can be opened, unless the write breaks off. -/
theorem exists_saves (hactive : a.active = some id) (he : a.views[id]? = some e)
    (hdocument : e.document = some path) (hstorable : e.content.IsStorable)
    (hplace : a.disk.openPlace (.ofText path) = .ok l) (hbytes : Utf8.encode e.content = .ok bytes)
    (hwhole : a.disk.broken? l bytes = none) :
    ∃ a', a.save = .ok a' ∧ Saves a id e path l a' := by
  have hload := Disk.loadText_put_storable hstorable hplace hbytes
  have hsaved : Saves a id e path l (a.saved id (a.disk.put l (.file bytes)) path) := by
    refine ⟨hload, Disk.node?_put_of_ne a.disk _, { e with modified := false }, ?_, rfl, rfl⟩
    show (a.views.modify id _)[id]? = _
    rw [List.getElem?_modify_eq, he]
    rfl
  rw [save_of_view hactive he hdocument, Disk.writeText_stored hplace hbytes hwhole]
  refine ⟨_, rfl, ?_⟩
  -- if it is the reference all documents are validated, which reaches neither disk nor texts
  split
  · exact hsaved.of_retains (disk_validateAll _) (retains_validateAll _)
  · exact hsaved

/-- A write that breaks off leaves the beginning of the text in the file. -/
theorem exists_failsToSave_broken {b : BrokenWrite} (hactive : a.active = some id)
    (he : a.views[id]? = some e) (hdocument : e.document = some path)
    (hplace : a.disk.openPlace (.ofText path) = .ok l) (hbytes : Utf8.encode e.content = .ok bytes)
    (hbroken : a.disk.broken? l bytes = some b) :
    ∃ a', a.save = .ok a' ∧ FailsToSave a b.fault.reason a' ∧
      a'.disk.node? l = some (.file (bytes.take b.stored)) ∧
      ∀ m, m ≠ l → a'.disk.node? m = a.disk.node? m := by
  rw [save_of_view hactive he hdocument, Disk.writeText_broken hplace hbytes hbroken]
  refine ⟨_, rfl, failsToSave_notSaved a _ _, ?_, fun m hm => ?_⟩
  · exact Disk.node?_put_self a.disk _ (Disk.isEmpty_names_of_openPlace hplace)
  · exact Disk.node?_put_of_ne a.disk _ hm

end

/--
**Saving loses nothing** that was typed, chosen, undone, redone or loaded before. A save whose write
does not break off puts the text of the active editor into the file, so that this is loaded with
exactly that text afterwards; the editor is not marked any more, and nothing else on the disk
changes. A save that fails leaves all documents and editors as before, with their marks: the disk too
if the system has refused to open the file, and all but the file, which is left with the first bytes
of the text, if the write broke off. When the path has a null character the system is not even asked.
-/
theorem save_lossless (h : Edited a) (hactive : a.active = some id) (he : a.views[id]? = some e)
    (hdocument : e.document = some path) :
    ∃ bytes, Utf8.encode e.content = .ok bytes ∧
      ((∃ l a', a.disk.openPlace (.ofText path) = .ok l ∧ a.disk.broken? l bytes = none ∧
          a.save = .ok a' ∧ Saves a id e path l a') ∨
        (∃ l b a', a.disk.openPlace (.ofText path) = .ok l ∧ a.disk.broken? l bytes = some b ∧
          a.save = .ok a' ∧ FailsToSave a b.fault.reason a' ∧
          a'.disk.node? l = some (.file (bytes.take b.stored)) ∧
          ∀ m, m ≠ l → a'.disk.node? m = a.disk.node? m) ∨
        (∃ fault p a', a.disk.openPlace (.ofText path) = .error (.path fault p) ∧
          a.save = .ok a' ∧ FailsToSave a fault.reason a' ∧ a'.disk = a.disk) ∨
        a.disk.openPlace (.ofText path) = .error .unnameable ∧
          a.save = .error (.file .unnameable)) := by
  have hstorable := (h.isStorable.views e (List.mem_of_getElem? he)).content
  obtain ⟨bytes, hbytes⟩ := Disk.exists_encode hstorable
  refine ⟨bytes, hbytes, ?_⟩
  cases hplace : a.disk.openPlace (.ofText path) with
  | ok l =>
    cases hbroken : a.disk.broken? l bytes with
    | none =>
      obtain ⟨a', hsave, hsaves⟩ :=
        exists_saves hactive he hdocument hstorable hplace hbytes hbroken
      exact .inl ⟨l, a', rfl, hbroken, hsave, hsaves⟩
    | some b =>
      obtain ⟨a', hsave, hfails⟩ :=
        exists_failsToSave_broken hactive he hdocument hplace hbytes hbroken
      exact .inr (.inl ⟨l, b, a', rfl, hbroken, hsave, hfails⟩)
  | error fault =>
    have hsave := save_of_view hactive he hdocument
    rw [Disk.writeText_refused hplace] at hsave
    rcases Disk.openPlace_eq_error hplace with ⟨fault, p, rfl⟩ | rfl
    · refine .inr (.inr (.inl ⟨fault, p, _, rfl, hsave, ?_, rfl⟩))
      exact failsToSave_notSaved a a.disk fault.reason
    · exact .inr (.inr (.inr ⟨rfl, hsave⟩))

/-- The disk on which no file gets larger than a number of bytes. -/
def limitedTo (d : Disk) (limit : Nat) : Disk :=
  { d with broken? := fun _ bytes =>
      if limit < bytes.length then some ⟨limit, .tooLarge⟩ else none }

/-- A character is typed in front of an empty object, which makes three bytes, and files are limited
to a number of bytes then. -/
def typedOnLimited (limit : Nat) : Except Error App :=
  startedOnEmpty.bind (run [.press 0 "x" (some "x"), .changeDisk (limitedTo emptyFile limit)])

/-- What is needed to save the three bytes, with one byte too few for them and with enough. -/
theorem exists_typedOnLimited {limit : Nat} (hlimit : limit = 2 ∨ limit = 3) :
    ∃ a e, Edited a ∧ a.active = some 0 ∧ a.views[0]? = some e ∧
      e.document = some (Text.ofString "ko_kr.json") ∧ e.content = Text.ofString "x\x7b\x7d" ∧
      a.disk.openPlace (.ofText "ko_kr.json") = .ok ⟨.above 0, ["ko_kr.json"]⟩ ∧
      a.disk.broken? ⟨.above 0, ["ko_kr.json"]⟩ [0x78, 0x7b, 0x7d]
        = if limit = 2 then some ⟨2, .tooLarge⟩ else none := by
  obtain ⟨a, ha, hview⟩ := exists_eq_ok (r := typedOnLimited limit)
    (f := fun a => a.views[0]?.map fun e => (e.document, e.content))
    (y := some (some (Text.ofString "ko_kr.json"), Text.ofString "x\x7b\x7d")) (by
      rcases hlimit with rfl | rfl <;> decide +kernel)
  have heq := eq_of_toOption_map ha
    (f := fun a => (a.active, (a.disk.openPlace (.ofText "ko_kr.json")).toOption,
      a.disk.broken? ⟨.above 0, ["ko_kr.json"]⟩ [0x78, 0x7b, 0x7d]))
    (y := (some 0, some ⟨.above 0, ["ko_kr.json"]⟩,
      if limit = 2 then some ⟨2, .tooLarge⟩ else none)) (by
      rcases hlimit with rfl | rfl <;> decide +kernel)
  obtain ⟨hactive, heq⟩ := Prod.mk.inj heq
  obtain ⟨hplace, hbroken⟩ := Prod.mk.inj heq
  obtain ⟨e, he, heq⟩ := Option.map_eq_some_iff.1 hview
  obtain ⟨hdocument, hcontent⟩ := Prod.mk.inj heq
  exact ⟨a, e, (reachable_of_startedOnEmpty ha).edited, hactive, he, hdocument, hcontent,
    eq_ok_of_toOption hplace, hbroken⟩

theorem save_lossless_typed :
    (∃ a a' : App, Edited a ∧ a.save = .ok a' ∧
      a'.disk.loadText (.ofText "ko_kr.json") = .ok (Text.ofString "x\x7b\x7d")) ∧
    ∃ a a' : App, Edited a ∧ a.save = .ok a' ∧ a'.views = a.views ∧
      a'.disk.node? ⟨.above 0, ["ko_kr.json"]⟩ = some (.file [0x78, 0x7b]) := by
  have hthree : Utf8.encode (Text.ofString "x\x7b\x7d") = .ok [0x78, 0x7b, 0x7d] := by
    decide +kernel
  constructor
  · obtain ⟨a, e, h, hactive, he, hdocument, hcontent, hplace, hwhole⟩ :=
      exists_typedOnLimited (Or.inr rfl : (3 : Nat) = 2 ∨ 3 = 3)
    obtain ⟨bytes, hbytes, hends⟩ := save_lossless h hactive he hdocument
    rw [hcontent, hthree] at hbytes
    obtain rfl := Except.ok.inj hbytes
    rw [hplace] at hends
    rcases hends with ⟨l, a', -, -, hsave, hsaves⟩ | ⟨l, b, a', hl, hbroken, -⟩ |
      ⟨fault, p, a', hrefused, -⟩ | ⟨hrefused, -⟩
    · exact ⟨a, a', h, hsave, hcontent ▸ hsaves.text⟩
    · obtain rfl := Except.ok.inj hl
      rw [hwhole] at hbroken
      cases hbroken
    · cases hrefused
    · cases hrefused
  · obtain ⟨a, e, h, hactive, he, hdocument, hcontent, hplace, hlimit⟩ :=
      exists_typedOnLimited (Or.inl rfl : (2 : Nat) = 2 ∨ 2 = 3)
    obtain ⟨bytes, hbytes, hends⟩ := save_lossless h hactive he hdocument
    rw [hcontent, hthree] at hbytes
    obtain rfl := Except.ok.inj hbytes
    rw [hplace] at hends
    rcases hends with ⟨l, a', hl, hwhole, -⟩ | ⟨l, b, a', hl, hbroken, hsave, hfails, hcut, -⟩ |
      ⟨fault, p, a', hrefused, -⟩ | ⟨hrefused, -⟩
    · obtain rfl := Except.ok.inj hl
      rw [hlimit] at hwhole
      cases hwhole
    · obtain rfl := Except.ok.inj hl
      obtain rfl := Option.some.inj (hlimit.symm.trans hbroken)
      exact ⟨a, a', h, hsave, hfails.views, hcut⟩
    · cases hrefused
    · cases hrefused

/-- **A save that fails may cut the file off,** and a carriage return is not read back if a text that
no file can be loaded with takes the place of what is in the editor. -/
theorem save_loses_text :
    (∃ a a' : App, Edited a ∧ a.save = .ok a' ∧
      a'.outside.notes.getLast? = some ⟨true, "Cannot save: File too large"⟩ ∧
      a.disk.node? ⟨.above 0, ["ko_kr.json"]⟩ = some (.file [0x7b, 0x7d]) ∧
      a'.disk.node? ⟨.above 0, ["ko_kr.json"]⟩ = some (.file [0x78, 0x7b])) ∧
    ∃ a a' : App, Edited a ∧
      save (a.modifyView 0 fun e => e.loadText (Text.ofString "a\rb")) = .ok a' ∧
      a'.views[0]?.map (fun e => (e.content, e.modified)) = some (Text.ofString "a\rb", false) ∧
      a'.disk.loadText (.ofText "ko_kr.json") = .ok (Text.ofString "a\nb") := by
  constructor
  · obtain ⟨a, ha, hsaved⟩ := exists_eq_ok (r := typedOnLimited 2) (f := fun a =>
      a.save.toOption.map fun a' => (a'.outside.notes.getLast?,
        a.disk.node? ⟨.above 0, ["ko_kr.json"]⟩, a'.disk.node? ⟨.above 0, ["ko_kr.json"]⟩))
      (y := some (some ⟨true, "Cannot save: File too large"⟩, some (.file [0x7b, 0x7d]),
        some (.file [0x78, 0x7b]))) (by decide +kernel)
    obtain ⟨a', ha', heq⟩ := exists_eq_ok hsaved
    obtain ⟨hnote, hfiles⟩ := Prod.mk.inj heq
    obtain ⟨hbefore, hafter⟩ := Prod.mk.inj hfiles
    exact ⟨a, a', (reachable_of_startedOnEmpty ha).edited, ha', hnote, hbefore, hafter⟩
  · obtain ⟨a, ha, hsaved⟩ := exists_eq_ok (r := startedOnEmpty.bind (run [])) (f := fun a =>
      (save (a.modifyView 0 fun e => e.loadText (Text.ofString "a\rb"))).toOption.map fun a' =>
        (a'.views[0]?.map fun e => (e.content, e.modified),
          (a'.disk.loadText (.ofText "ko_kr.json")).toOption))
      (y := some (some (Text.ofString "a\rb", false), some (Text.ofString "a\nb")))
      (by decide +kernel)
    obtain ⟨a', ha', heq⟩ := exists_eq_ok hsaved
    obtain ⟨hview, hread⟩ := Prod.mk.inj heq
    exact ⟨a, a', (reachable_of_startedOnEmpty ha).edited, ha', hview, eq_ok_of_toOption hread⟩

end App

end LangFile
