import LangFile.Proofs.App.Wiring

/-!
# What happens in one step

A step of the application changes one editor, one document, or what is listened to, and then the
application follows. There are few ways in which it does, so what is to hold of the application at
all times is proved for each of them once.

1. What comes of opening a file (`Opens`), and of the actions that may do so (`Opening`).
2. What one step does (`Happens`, `happens_of_take`).
3. What every step keeps: who listens, and which editor shows what (`Reachable.keeps`).
-/

namespace LangFile

open Editor

namespace App

variable {a a' b : App} {path : Text}

/-! ## Opening a file -/

/-- One more document is open. -/
def withDocument (a : App) (d : Document) : App := { a with documents := a.documents ++ [d] }

/-- What comes of opening a file: the editor of a document that is open gets its text, and another
document gets an editor of its own. -/
inductive Opens (a : App) (path : Text) : App → Prop
  | reloaded {d : Document} {id : ViewId} {e : Editor} :
    a.document? path = some d → a.views[id]? = some e → e.document = some path →
    Opens a path ((a.reloadEditor id d).requestFocus id)
  | added {d : Document} {b a' : App} :
    d.path = path → a.document? path = none →
    Refreshes (a.withDocument d) b →
    Refreshes (b.addEditor d b.views.length) a' → Opens a path a'

theorem refreshes_openDocument (h : a.HearsFindings) (text : Text)
    (hnew : a.document? (Path.ofText path).toText = none) :
    Refreshes (a.withDocument (.new path text))
      (a.openDocument Session.emit path text) := by
  have hpath : (Document.new path text).path = (Path.ofText path).toText := rfl
  unfold Session.openDocument
  dsimp only
  rw [hpath, hnew]
  exact refreshes_emit (a := a.withDocument (.new path text))
    (e := .opened (Path.ofText path).toText) (h.of_signal rfl) (by simp [Event.topic])

/-- As long as a document is open, opening its file again changes nothing. -/
theorem openDocument_of_document? {d : Document} (text : Text)
    (hd : a.document? (Path.ofText path).toText = some d) :
    a.openDocument Session.emit path text = a := by
  have hpath : (Document.new path text).path = (Path.ofText path).toText := rfl
  unfold Session.openDocument
  dsimp only
  rw [hpath, hd]

/-- **A file is opened in the editor of its document, or in a new one.** -/
theorem opens_of_openInNewColumn (hwired : a.IsWired) (hpaired : a.IsPaired)
    (h : a.openInNewColumn path = .ok a') : Opens a (Path.ofText path).toText a' := by
  obtain ⟨text, opened, -, hopen, hshown⟩ := exists_of_openInNewColumn h
  cases hbefore : a.document? (Path.ofText path).toText with
  | some d =>
    have hkey : d.path = (Path.ofText path).toText := Session.path_of_document? hbefore
    rw [openDocument_of_document? text hbefore] at hopen
    subst hopen
    rcases hshown with ⟨hnone, -⟩ | ⟨d', hd', ⟨id, e, he, hdocument, rfl⟩ | ⟨hnone, rfl⟩⟩
    · rw [hbefore] at hnone
      cases hnone
    · obtain rfl := Option.some.inj (hbefore.symm.trans hd')
      exact .reloaded hbefore he (hdocument.trans (congrArg some hkey))
    · -- an open document has an editor
      obtain rfl := Option.some.inj (hbefore.symm.trans hd')
      obtain ⟨id, e, he, hdocument⟩ := hpaired.exists_view (mem_paths_of_document? hbefore)
      exact absurd (hdocument.trans (congrArg some hkey.symm)) (hnone e (List.mem_of_getElem? he))
  | none =>
    have hopened := refreshes_openDocument hwired.hears text hbefore
    have hnew : (a.openDocument Session.emit path text).document? (Path.ofText path).toText
        = some (Document.new path text) := by
      rw [hopened.frame.document?]
      exact (Session.document?_append hbefore _).trans (if_pos rfl)
    rw [hopen] at hopened hnew
    rcases hshown with ⟨hnone, -⟩ | ⟨d', hd', ⟨id, e', he', hdocument, -⟩ | ⟨-, rfl⟩⟩
    · rw [hnew] at hnone
      cases hnone
    · -- no editor shows a document that was not open before
      obtain ⟨e, he, hcore⟩ := hopened.frame.exists_view_before he'
      obtain ⟨d, -, hd, -, hfound⟩ := hpaired.exists_document (a := a) he
      have hsame : some d.path = some d'.path :=
        (hd.symm.trans (congrArg Core.document hcore)).trans hdocument
      rw [Option.some.inj hsame, Session.path_of_document? hd', hbefore] at hfound
      cases hfound
    · obtain rfl := Option.some.inj (hnew.symm.trans hd')
      have hhears := hopened.hearsFindings (hwired.hears.of_signal rfl)
      refine .added rfl hbefore hopened ?_
      exact .trans (refreshes_setVisible
        (a := addEditor opened (Document.new path text) opened.views.length)
        (hhears.of_signal rfl) _) (.beside (beside_requestFocus _ _))

/-- What comes of an action that may open a file. The document at its path may have been given
another text before. -/
inductive Opening (a : App) : App → Prop
  | refreshed {a' : App} : Refreshes a a' → Opening a a'
  | opened {b a' : App} {path : Text} : Refreshes a b → Opens b path a' → Opening a a'
  | replaced {b c a' : App} {path text : Text} {d : Document} :
    Refreshes a b → b.document? path = some d → Refreshes (b.withText d text) c →
    Opens c path a' → Opening a a'

theorem Opening.of_refreshes (h : Refreshes a b) (hopening : Opening b a') : Opening a a' := by
  cases hopening with
  | refreshed h' => exact .refreshed (h.trans h')
  | opened h' hopens => exact .opened (h.trans h') hopens
  | replaced h' hd hreplaced hopens => exact .replaced (h.trans h') hd hreplaced hopens

/-- What stands on the disk is no part of what is open. -/
theorem beside_disk (a : App) (disk : Disk) : Beside a { a with disk } :=
  ⟨⟨rfl, rfl, rfl, rfl, rfl, rfl, rfl, List.prefix_rfl⟩, rfl, rfl, rfl⟩

/-- A language file is made, or documents and editors are not reached. -/
theorem exists_of_making {target : Path} {overwrite : Bool} {made : App} {reply : Reply}
    (h : Session.newLanguageFile Session.emit target overwrite a = .ok (made, reply)) :
    (reply.ok = false ∧ Beside a made) ∨
    (reply.ok = true ∧ reply.path = some target ∧ ∃ (b : App) (text : Text), Beside a b ∧
      made = b.updateDocument Session.emit target.toText text) := by
  have hmaking := Session.making_newLanguageFile Session.emit target overwrite a
  rw [h] at hmaking
  cases hmaking with
  | noDocument | taken | unparsed | blocked => exact Or.inl ⟨rfl, Beside.refl a⟩
  | unencodable | brokenOff => exact Or.inl ⟨rfl, beside_disk a _⟩
  | made => exact Or.inr ⟨rfl, rfl, _, _, beside_disk a _, rfl⟩

theorem beside_tell (a : App) (message : Text) (isError : Bool) :
    Beside a (a.tell message isError) :=
  .of_outside rfl List.prefix_rfl

theorem beside_ask (a : App) (p : Prompt) : Beside a (a.ask p) := .of_outside rfl List.prefix_rfl

theorem beside_popPrompt (a : App) : Beside a a.popPrompt := .of_outside rfl List.prefix_rfl

theorem IsWired.withText (h : a.IsWired) (d : Document) (text : Text) :
    (a.withText d text).IsWired :=
  h.of_eq rfl rfl rfl rfl

theorem IsWired.modifyView (h : a.IsWired) (id : ViewId) (f : Editor → Editor) :
    IsWired (a.modifyView id f) :=
  h.of_eq rfl rfl rfl rfl

/-- A file is opened when its document has been given a text. -/
theorem opening_of_updateDocument {text message : Text} {target : Path} (hwired : a.IsWired)
    (hpaired : a.IsPaired) (htarget : target.IsNormal)
    (h : openInNewColumn (tell (a.updateDocument Session.emit target.toText text) message)
      target.toText = .ok a') : Opening a a' := by
  have hopens (b : App) (hwired : b.IsWired) (hpaired : b.IsPaired)
      (h : openInNewColumn (tell b message) target.toText = .ok a') :
      Opens (tell b message) target.toText a' := by
    have hframe := (beside_tell b message false).toFrame
    have hopened := opens_of_openInNewColumn (hwired.frame hframe) (hpaired.frame hframe) h
    rwa [Path.ofText_toText htarget] at hopened
  have hsame (hupdate : a.updateDocument Session.emit target.toText text = a) : Opening a a' := by
    rw [hupdate] at h
    exact .opened (.beside (beside_tell a message false)) (hopens a hwired hpaired h)
  cases hd : a.document? target.toText with
  | none =>
    refine hsame ?_
    unfold Session.updateDocument
    rw [hd]
  | some d =>
    by_cases hne : d.text = text
    · refine hsame ?_
      unfold Session.updateDocument
      rw [hd]
      exact if_pos hne
    · have hupdated := refreshes_updateDocument hwired.hears hd hne
      refine .replaced (.refl a) hd (hupdated.trans (.beside (beside_tell _ message false)))
        (hopens _ ((hwired.withText d text).frame hupdated.frame)
          ((hpaired.withText d text).frame hupdated.frame) h)

theorem opening_of_newLanguageFile {target : Text} {overwrite : Bool} (hwired : a.IsWired)
    (hpaired : a.IsPaired) (h : a.newLanguageFile target overwrite = .ok a') : Opening a a' := by
  rcases exists_of_newLanguageFile h with rfl | ⟨made, reply, hmade, hend⟩
  · exact .refreshed (.refl a')
  · rcases exists_of_making hmade with ⟨hok, hbeside⟩ | ⟨hok, hpath, b, text, hb, rfl⟩
    · rcases hend with ⟨p, hyes, -⟩ | ⟨-, ⟨isError, rfl⟩ | ⟨p, rfl⟩⟩
      · rw [hok] at hyes
        cases hyes
      · exact .refreshed (.beside (hbeside.trans (beside_tell made _ _)))
      · exact .refreshed (.beside (hbeside.trans (beside_ask made _)))
    · rcases hend with ⟨p, -, hp, hopened⟩ | ⟨hnone, -⟩
      · obtain rfl := Option.some.inj (hpath.symm.trans hp)
        exact .of_refreshes (.beside hb) (opening_of_updateDocument (hwired.frame hb.toFrame)
          (hpaired.frame hb.toFrame) (Path.isNormal_ofText target) hopened)
      · rw [hnone hok] at hpath
        cases hpath

theorem opening_of_submit {value : Text} (hwired : a.IsWired) (hpaired : a.IsPaired)
    (h : a.submit value = .ok a') : Opening a a' := by
  have hpopped := beside_popPrompt a
  rcases exists_of_submit h with rfl | hmade
  · exact .refreshed (.refl a')
  · exact .of_refreshes (.beside hpopped) (opening_of_newLanguageFile
      (hwired.frame hpopped.toFrame) (hpaired.frame hpopped.toFrame) hmade)

theorem opening_of_promptKey {key : Text} (hwired : a.IsWired) (hpaired : a.IsPaired)
    (h : a.promptKey key = .ok a') : Opening a a' := by
  have hpopped := beside_popPrompt a
  rcases exists_of_promptKey h with rfl | rfl | ⟨target, hmade⟩
  · exact .refreshed (.refl a')
  · exact .refreshed (.beside hpopped)
  · exact .of_refreshes (.beside hpopped) (opening_of_newLanguageFile
      (hwired.frame hpopped.toFrame) (hpaired.frame hpopped.toFrame) hmade)

/-! ## What one step does -/

/-- The application with another queue. -/
def withQueue (a : App) (queue : List Posted) : App := a.modify fun s => { s with queue }

theorem IsWired.withQueue (h : a.IsWired) (queue : List Posted) : (a.withQueue queue).IsWired :=
  h.of_eq rfl rfl rfl rfl

theorem IsPaired.withQueue (h : a.IsPaired) (queue : List Posted) : (a.withQueue queue).IsPaired :=
  h.of_eq rfl rfl

theorem edit_eq (a : App) (editor : ViewId) (e : Editor) (messages : List EditorMessage) :
    a.edit editor e messages = withQueue (a.modifyView editor fun _ => e)
      (a.outside.queue ++ messages.map (.message editor)) := by
  have hposted (messages : List EditorMessage) (a : App) :
      messages.foldl (fun a m => a.post (.message editor m)) a
        = a.withQueue (a.outside.queue ++ messages.map (.message editor)) := by
    induction messages generalizing a with
    | nil => rw [List.map_nil, List.append_nil]; rfl
    | cons m messages ih =>
      rw [List.foldl_cons, ih, List.map_cons, List.append_cons]
      rfl
  exact hposted messages _

/-- What happens in one step. Most steps only bring something up to date; the others change one
editor, one document, or what is listened to. -/
inductive Happens (a : App) : Step → App → Prop
  | refreshed {step : Step} {a' : App} : Refreshes a a' → Happens a step a'
  | pressed {id : ViewId} {name : Text} {produced : Option Text} {e e' : Editor}
    {messages : List EditorMessage} :
    a.views[id]? = some e → e.pressKey (.ofName name produced) = .ok (e', messages) →
    Happens a (.press id name produced) (a.edit id e' messages)
  | committed {id : ViewId} {rest : List Posted} :
    a.outside.queue = .message id .textChanged :: rest →
    Happens a .handleFirst ((a.withQueue rest).commitText id)
  | selected {id : ViewId} {rest : List Posted} :
    a.outside.queue = .message id .selectionChanged :: rest →
    Happens a .handleFirst (Session.emit (.selected id) (a.withQueue rest))
  /-- What is handled tells nothing about an editor's text or selection. -/
  | handled {p : Posted} {rest : List Posted} {a' : App} :
    a.outside.queue = p :: rest → (∀ id, p ≠ .message id .textChanged) →
    (∀ id, p ≠ .message id .selectionChanged) → Refreshes (a.withQueue rest) a' →
    Happens a .handleFirst a'
  | chosen {choice : Option Text} {id : ViewId} {row start stop : Int} {text : Text}
    {e e' : Editor} {a' : App} :
    a.views[id]? = some e → e.replaceColumns row start stop text = .ok e' →
    Refreshes (commitText (a.modifyView id fun _ => e') id) a' → Happens a (.choose choice) a'
  | opened {step : Step} {a' : App} :
    step.opensFiles = true → Opening a a' → Happens a step a'
  | watched {a' : App} {p : PreviewState} :
    a'.IsWired → Spares a a' → a'.previews = [p] →
    a'.outputs = (a.showOutput p.id p.view p.format).outputs → Happens a .togglePreview a'
  | unwatched {step : Step} {a' : App} :
    a'.IsWired → Spares a a' → a'.previews = [] → Happens a step a'

variable {step : Step}

theorem happens_of_actIn {id : ViewId} {f : Editor → Except Fault (Editor × List EditorMessage)}
    (h : a.actIn id f = .ok a')
    (hf : ∀ e e' messages, f e = .ok (e', messages) → e'.core = e.core ∧ e'.findings = e.findings) :
    Happens a step a' := by
  rcases exists_of_actIn h with rfl | ⟨e, e', messages, he, hacted, rfl⟩
  · exact .refreshed (.refl a')
  · rw [edit_eq]
    have hview : Beside a (a.modifyView id fun _ => e') := .of_modify fun e₁ he₁ => by
      obtain rfl := Option.some.inj (he.symm.trans he₁)
      exact hf e e' messages hacted
    exact .refreshed (.beside (hview.trans (.of_outside rfl (List.prefix_append _ _))))

theorem happens_handleFirst (hwired : a.IsWired) : Happens a .handleFirst a.handleFirst := by
  unfold App.handleFirst
  split
  · exact .refreshed (.refl a)
  · next p rest hqueue =>
    have hhears : (a.withQueue rest).HearsFindings := hwired.hears.of_signal rfl
    cases p with
    | message id m =>
      cases m with
      | textChanged => exact .committed hqueue
      | selectionChanged => exact .selected hqueue
      | scrolled top =>
        exact .handled hqueue (by simp) (by simp)
          (refreshes_emit (e := .scrolled id top) hhears (by simp [Event.topic]))
      | completionRequested place before =>
        refine .handled hqueue (by simp) (by simp) (.beside ?_)
        show Beside _ (offerCompletions _ _ _ _)
        unfold offerCompletions
        dsimp only
        split
        · exact Beside.refl _
        · exact .of_outside rfl List.prefix_rfl
    | focus id => exact .handled hqueue (by simp) (by simp) (refreshes_giveFocus hhears id)

theorem beside_notSaved (a : App) (disk : Disk) (reason : String) :
    Beside a (a.notSaved disk reason) :=
  (beside_disk a disk).trans (beside_tell _ _ _)

theorem beside_saved (a : App) (id : ViewId) (disk : Disk) (path : Text) :
    Beside a (a.saved id disk path) := by
  have hunmarked : Beside { a with disk } (Session.modifyView { a with disk } id fun e =>
      { e with modified := false }) := .of_modify fun _ _ => ⟨rfl, rfl⟩
  exact ((beside_disk a disk).trans hunmarked).trans (beside_tell _ _ _)

theorem happens_of_save (hwired : a.IsWired) (h : a.save = .ok a') : Happens a step a' := by
  rcases exists_of_save h with rfl | ⟨disk, reason, rfl⟩ | ⟨id, _, path, disk, -, -, -, -, hsaved⟩
  · exact .refreshed (.refl a')
  · exact .refreshed (.beside (beside_notSaved a disk reason))
  · have hbeside := beside_saved a id disk path
    rcases hsaved with rfl | rfl
    · exact .refreshed (.beside hbeside)
    · have hhears := hwired.hears.of_signal hbeside.signal
      exact .refreshed (.trans (.beside hbeside) (refreshes_validateAll hhears))

theorem happens_of_choose {choice : Option Text} (h : a.choose choice = .ok a') :
    Happens a (.choose choice) a' := by
  rcases exists_of_choose h with rfl | ⟨_, _, _, _, _, _, -, -, -, he, hreplaced, rfl⟩
  · exact .refreshed (.beside (beside_endCompletion a))
  · exact .chosen he hreplaced (.beside (beside_endCompletion _))

theorem happens_togglePreview (hwired : a.IsWired) :
    Happens a .togglePreview a.togglePreview := by
  cases hpreview : a.outside.preview with
  | some id =>
    obtain ⟨hwired', hspares, hnone⟩ := togglePreview_closes hwired hpreview
    exact .unwatched hwired' hspares hnone
  | none =>
    cases hactive : a.active with
    | some view =>
      obtain ⟨hwired', hspares, p, hp, rfl, hformat, houtputs⟩ :=
        togglePreview_opens hwired hpreview hactive
      rw [← hformat] at houtputs
      exact .watched hwired' hspares hp houtputs
    | none =>
      have hsame : a.togglePreview = a.modify fun s =>
          { s with preview := none, previewVisible := s.previewVisible || false } := by
        unfold togglePreview Session.openPreview
        rw [hpreview, hactive]
        rfl
      rw [hsame]
      exact .refreshed (.beside (.of_outside hpreview.symm List.prefix_rfl))

/-- **What each step does.** -/
theorem happens_of_take (hwired : a.IsWired) (hpaired : a.IsPaired) (h : step.take a = .ok a') :
    Happens a step a' := by
  have hbeside {b : App} (hb : Beside a b) (h : (.ok b : Except Error App) = .ok a') :
      Happens a step a' := by
    obtain rfl := Except.ok.inj h
    exact .refreshed (.beside hb)
  cases step with
  | press id name produced =>
    have hacted : a.actIn id (fun e => e.pressKey (.ofName name produced)) = .ok a' := h
    rcases exists_of_actIn hacted with rfl | ⟨e, e', messages, he, hpress, rfl⟩
    · exact .refreshed (.refl a')
    · exact .pressed he hpress
  | scroll id delta =>
    refine happens_of_actIn (f := fun e => .ok (e.scrollBy delta)) h
      fun e e' messages hscrolled => ?_
    obtain rfl : (e.scrollBy delta).1 = e' := congrArg Prod.fst (Except.ok.inj hscrolled)
    exact ⟨core_of_held (e.held_scrollBy delta), e.findings_scrollTo _⟩
  | draw id =>
    refine happens_of_actIn (f := fun e => e.render.map fun r : Editor × RichText => (r.1, [])) h
      fun e e' messages hdrawn => ?_
    obtain ⟨⟨drawn, text⟩, hrender, heq⟩ := exists_of_map hdrawn
    obtain rfl : drawn = e' := congrArg Prod.fst heq
    obtain ⟨top, lineStyles, stale, rfl⟩ := exists_of_render hrender
    exact ⟨rfl, rfl⟩
  | resize id width height =>
    refine happens_of_actIn (f := fun e => .ok ({ e with width, height }, [])) h
      fun e e' messages hresized => ?_
    obtain rfl : _ = e' := congrArg Prod.fst (Except.ok.inj hresized)
    exact ⟨rfl, rfl⟩
  | click id => exact hbeside (beside_requestFocus a id) h
  | handleFirst =>
    obtain rfl := Except.ok.inj h
    exact happens_handleFirst hwired
  | runPending =>
    refine hbeside (b := Session.runPending a) ?_ h
    unfold Session.runPending
    split
    · exact Beside.refl a
    · exact ⟨⟨rfl, rfl, rfl, rfl, rfl, rfl, rfl, List.prefix_rfl⟩, rfl, rfl, rfl⟩
  | changeDisk disk =>
    exact hbeside (b := { a with disk }) (beside_disk a disk) h
  | save => exact happens_of_save hwired h
  | askForTarget =>
    have hasked : a.askForTarget = .ok a' := h
    rcases exists_of_askForTarget hasked with ⟨message, rfl⟩ | ⟨p, rfl⟩
    · exact .refreshed (.beside (beside_tell a _ _))
    · exact .refreshed (.beside (beside_ask a _))
  | submit value => exact .opened rfl (opening_of_submit hwired hpaired h)
  | promptKey key => exact .opened rfl (opening_of_promptKey hwired hpaired h)
  | openInNewColumn path =>
    exact .opened rfl (.opened (.refl a) (opens_of_openInNewColumn hwired hpaired h))
  | choose choice => exact happens_of_choose h
  | escape =>
    refine hbeside (b := a.escape) ?_ h
    unfold App.escape
    split
    · exact beside_endCompletion a
    · exact Beside.refl a
  | togglePreview =>
    obtain rfl := Except.ok.inj h
    exact happens_togglePreview hwired
  | toggleLinkedScroll =>
    refine hbeside (b := a.toggleLinkedScroll) ?_ h
    exact ⟨⟨rfl, rfl, rfl, rfl, rfl, rfl, rfl, List.prefix_rfl⟩, rfl, rfl, rfl⟩
  | nextEditor =>
    refine hbeside (b := a.nextEditor) ?_ h
    unfold App.nextEditor
    split
    · exact Beside.refl a
    · exact beside_requestFocus a _
  | unmount =>
    obtain rfl := Except.ok.inj h
    obtain ⟨hwired', hspares, hnone⟩ := unmount_ends hwired
    exact .unwatched hwired' hspares hnone

/-! ## What every step keeps -/

/-- An editor stays on its document and in its column, and shows the same findings. -/
structure StaysPut (e e' : Editor) : Prop where
  document : e'.document = e.document
  column : e'.column = e.column
  findings : e'.findings = e.findings

theorem StaysPut.place_eq {e e' : Editor} (h : StaysPut e e') : place e' = place e :=
  Prod.ext h.document h.column

theorem staysPut_of_pressed {k : KeyPress} {e e' : Editor} (h : Pressed k e e') :
    StaysPut e e' := by
  cases h with
  | passed | edited => exact ⟨rfl, rfl, rfl⟩
  | undone _ _ _ hundo => rw [undoEdit_of_cons hundo]; exact ⟨rfl, rfl, rfl⟩
  | redone _ _ _ hredo => rw [redoEdit_of_cons hredo]; exact ⟨rfl, rfl, rfl⟩

theorem staysPut_of_replaceColumns {e e' : Editor} {row start stop : Int} {t : Text}
    (h : e.replaceColumns row start stop t = .ok e') : StaysPut e e' := by
  unfold Editor.replaceColumns at h
  split at h
  · obtain rfl := Except.ok.inj h
    exact ⟨rfl, rfl, rfl⟩
  · obtain ⟨buffer, -, rfl⟩ := exists_of_map h
    exact ⟨rfl, rfl, rfl⟩

variable {id : ViewId} {e e' : Editor}

/-- Another editor comes in the place of one. -/
theorem IsPaired.replace (h : a.IsPaired) (he : a.views[id]? = some e)
    (hput : StaysPut e e') : IsPaired (a.modifyView id fun _ => e') :=
  h.modifyView fun e₁ he₁ => by
    obtain rfl := Option.some.inj (he.symm.trans he₁)
    exact hput.place_eq

/-- The text of an editor goes to its document, if that does not have it. -/
theorem commitText_of_view (h : a.IsPaired) (he : a.views[id]? = some e) :
    ∃ d, e.document = some d.path ∧ a.document? d.path = some d ∧
      (d.text = e.content ∧ a.commitText id = a ∨
        d.text ≠ e.content ∧
          a.commitText id = Session.emit (.changed d.path) (a.withText d e.content)) := by
  obtain ⟨d, -, hdocument, -, hd⟩ := h.exists_document he
  have hcommit : a.commitText id = a.updateDocument Session.emit d.path e.content := by
    unfold commitText
    rw [he]
    dsimp only
    rw [hdocument]
  unfold Session.updateDocument at hcommit
  rw [hd] at hcommit
  refine ⟨d, hdocument, hd, ?_⟩
  by_cases heq : d.text = e.content
  · exact Or.inl ⟨heq, hcommit.trans (if_pos heq)⟩
  · exact Or.inr ⟨heq, hcommit.trans (if_neg heq)⟩

theorem commitText_of_view_eq_none (hnone : a.views[id]? = none) : a.commitText id = a := by
  unfold commitText
  rw [hnone]

theorem refreshes_changed (h : a.IsWired) (d : Document) (text : Text) :
    Refreshes (a.withText d text) (Session.emit (.changed d.path) (a.withText d text)) :=
  refreshes_emit (e := .changed d.path) (h.withText d text).hears (by simp [Event.topic])

theorem refreshes_selected (h : a.IsWired) (queue : List Posted) (id : ViewId) :
    Refreshes (a.withQueue queue) (Session.emit (.selected id) (a.withQueue queue)) :=
  refreshes_emit (e := .selected id) (h.withQueue queue).hears (by simp [Event.topic])

/-- An editor with another text than its document is given that of the document. -/
theorem reloadEditor_of_view {d : Document} (he : a.views[id]? = some e) :
    e.content = d.text ∧ a.reloadEditor id d = a ∨
    e.content ≠ d.text ∧ Beside
      (a.modifyView id fun e => (e.loadText d.text).setFindings (a.findings d.path))
      (a.reloadEditor id d) := by
  rcases a.reloadEditor_eq id d with ⟨hsame, heq⟩ | ⟨e₁, he₁, hne, heq⟩
  · exact .inl ⟨hsame e he, heq⟩
  · obtain rfl := Option.some.inj (he.symm.trans he₁)
    rw [heq]
    exact .inr ⟨hne, beside_decorateVisible _⟩

namespace IsWired

theorem commitText (h : a.IsWired) (hpaired : a.IsPaired) (id : ViewId) :
    IsWired (a.commitText id) := by
  cases he : a.views[id]? with
  | none => rwa [commitText_of_view_eq_none he]
  | some e =>
    obtain ⟨d, -, -, ⟨-, heq⟩ | ⟨-, heq⟩⟩ := commitText_of_view hpaired he
    · rwa [heq]
    · rw [heq]
      exact (h.withText d e.content).frame (refreshes_changed h d e.content).frame

theorem opens (h : a.IsWired) (hopens : Opens a path a') : a'.IsWired := by
  cases hopens with
  | @reloaded d id e _ he _ =>
    have hfocused := beside_requestFocus (a.reloadEditor id d) id
    rcases reloadEditor_of_view (d := d) he with ⟨-, heq⟩ | ⟨-, hreloaded⟩
    · rw [heq] at hfocused ⊢
      exact h.frame hfocused.toFrame
    · have hviews : IsWired (a.modifyView id fun e =>
          (e.loadText d.text).setFindings (a.findings d.path)) := h.modifyView id _
      exact (hviews.frame hreloaded.toFrame).frame hfocused.toFrame
  | @added d b _ _ _ hopened hadded =>
    have hdocument : (a.withDocument d).IsWired := h.of_eq rfl rfl rfl rfl
    have heditor : (b.addEditor d b.views.length).IsWired :=
      (hdocument.frame hopened.frame).of_eq rfl rfl rfl rfl
    exact heditor.frame hadded.frame

end IsWired

namespace IsPaired

theorem commitText (h : a.IsPaired) (hwired : a.IsWired) (id : ViewId) :
    IsPaired (a.commitText id) := by
  cases he : a.views[id]? with
  | none => rwa [commitText_of_view_eq_none he]
  | some e =>
    obtain ⟨d, -, -, ⟨-, heq⟩ | ⟨-, heq⟩⟩ := commitText_of_view h he
    · rwa [heq]
    · rw [heq]
      exact (h.withText d e.content).frame (refreshes_changed hwired d e.content).frame

theorem opens (h : a.IsPaired) (hopens : Opens a path a') : a'.IsPaired := by
  cases hopens with
  | @reloaded d id e _ he _ =>
    have hfocused := beside_requestFocus (a.reloadEditor id d) id
    rcases reloadEditor_of_view (d := d) he with ⟨-, heq⟩ | ⟨-, hreloaded⟩
    · rw [heq] at hfocused ⊢
      exact h.frame hfocused.toFrame
    · have hviews : IsPaired (a.modifyView id fun e =>
          (e.loadText d.text).setFindings (a.findings d.path)) := h.modifyView fun _ _ => rfl
      exact (hviews.frame hreloaded.toFrame).frame hfocused.toFrame
  | @added d b _ hpath hnew hopened hadded =>
    have hplaces := congrArg (List.map fun c : Core => (c.document, c.column)) hopened.frame.cores
    rw [List.map_map, List.map_map] at hplaces
    exact (h.addEditor (hpath ▸ hnew) hopened.frame.documents hplaces).frame hadded.frame

end IsPaired

/-- **What one step keeps:** who listens, and that documents and editors belong together. -/
theorem Happens.keeps (h : Happens a step a') (hwired : a.IsWired) (hpaired : a.IsPaired) :
    a'.IsWired ∧ a'.IsPaired := by
  have hqueue (queue : List Posted) : (a.withQueue queue).IsWired ∧ (a.withQueue queue).IsPaired :=
    ⟨hwired.withQueue queue, hpaired.withQueue queue⟩
  cases h with
  | refreshed h => exact ⟨hwired.frame h.frame, hpaired.frame h.frame⟩
  | @pressed id _ _ e e' messages he hpress =>
    rw [edit_eq]
    have hview := hpaired.replace he (staysPut_of_pressed (pressed_of_pressKey hpress))
    exact ⟨(hwired.modifyView id _).withQueue _, hview.withQueue _⟩
  | @committed id rest _ =>
    obtain ⟨hwired', hpaired'⟩ := hqueue rest
    exact ⟨hwired'.commitText hpaired' id, hpaired'.commitText hwired' id⟩
  | @selected id rest _ =>
    obtain ⟨hwired', hpaired'⟩ := hqueue rest
    have h := refreshes_selected hwired rest id
    exact ⟨hwired'.frame h.frame, hpaired'.frame h.frame⟩
  | @handled _ rest _ _ _ _ h =>
    obtain ⟨hwired', hpaired'⟩ := hqueue rest
    exact ⟨hwired'.frame h.frame, hpaired'.frame h.frame⟩
  | @chosen _ id _ _ _ _ e e' _ he hreplaced h =>
    have hview := hpaired.replace he (staysPut_of_replaceColumns hreplaced)
    have hwired' := hwired.modifyView id fun _ => e'
    exact ⟨(hwired'.commitText hview id).frame h.frame,
      (hview.commitText hwired' id).frame h.frame⟩
  | opened _ hopening =>
    cases hopening with
    | refreshed h => exact ⟨hwired.frame h.frame, hpaired.frame h.frame⟩
    | opened h hopens =>
      exact ⟨(hwired.frame h.frame).opens hopens, (hpaired.frame h.frame).opens hopens⟩
    | @replaced _ _ _ _ text d h _ h' hopens =>
      exact ⟨(((hwired.frame h.frame).withText d text).frame h'.frame).opens hopens,
        (((hpaired.frame h.frame).withText d text).frame h'.frame).opens hopens⟩
  | watched hwired' hspares | unwatched hwired' hspares =>
    exact ⟨hwired', hpaired.of_eq (congrArg (List.map Document.path) hspares.documents)
      (congrArg (List.map place) hspares.views)⟩

/-- **In every state** documents and editors belong together, and listeners are as they should be. -/
theorem Reachable.keeps (h : Reachable a) : a.IsWired ∧ a.IsPaired := by
  induction h with
  | mount hnew =>
    obtain ⟨start, hstart, -, hmounted⟩ := exists_isStart hnew
    exact ⟨hstart.wired.frame hmounted.frame, hstart.paired.frame hmounted.frame⟩
  | step step _ htake ih => exact (happens_of_take ih.1 ih.2 htake).keeps ih.1 ih.2

theorem Reachable.happens (h : Reachable a) (htake : step.take a = .ok a') : Happens a step a' :=
  happens_of_take h.keeps.1 h.keeps.2 htake

end App

end LangFile
