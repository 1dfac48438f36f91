import LangFile.Proofs.App.Actions
import LangFile.Proofs.Editor.History
import LangFile.Proofs.Session.Drawing
import LangFile.Proofs.Session.LanguageFile
import LangFile.Proofs.Session.Operation

/-!
# What happens to the application

Between two moments of rest one thing happens: a key is pressed in an editor, something posted is
handled, or the user starts an action. Only few of these things reach what an editor holds. The
session draws its views and hands findings to them, but leaves their text and its history alone.

1. What an editor holds (`Held`), and that deliveries leave it as it is (`retains_emit`).
2. What each part of the application leaves as it is (`Retains`).
3. The steps of the application (`Step`), and the states that they reach (`Reachable`).
4. What a step makes of each editor (`Turn`, `evolves_of_take`).
5. The editors that are there at first (`isFresh_of_mount`), and a small application to begin with
   (`startedOnEmpty`).
-/

namespace LangFile

open Editor

/-! ## What an editor holds -/

/-- What an editor holds, apart from how it is scrolled and drawn. -/
structure Held where
  document : Option Text
  column : Int
  readOnly : Bool
  buffer : Buffer
  anchor : Option Cursor
  modified : Bool
  undo : List Buffer
  redo : List Buffer
  version : Nat

/-- What the editor holds. -/
def Editor.held (e : Editor) : Held :=
  ⟨e.document, e.column, e.readOnly, e.buffer, e.anchor, e.modified, e.undo, e.redo, e.version⟩

theorem Editor.held_scrollTo (e : Editor) (line : Int) : (e.scrollTo line).1.held = e.held := by
  unfold scrollTo
  dsimp only
  split <;> rfl

theorem Editor.held_scrollBy (e : Editor) (delta : Int) : (e.scrollBy delta).1.held = e.held :=
  e.held_scrollTo _

theorem Editor.held_of_render {e e' : Editor} {drawn : RichText}
    (h : e.render = .ok (e', drawn)) : e'.held = e.held := by
  obtain ⟨top, lineStyles, stale, rfl⟩ := exists_of_render h
  rfl

/-- What is loaded takes the place of what was held. -/
theorem Editor.held_loadText_congr {e e' : Editor} (h : e'.held = e.held) (t : Text) :
    (e'.loadText t).held = (e.loadText t).held := by
  simp only [held, Held.mk.injEq] at h
  simp only [held, loadText, touch, Held.mk.injEq]
  simp [h]

namespace App

open Session (IsIndifferent IsKept Meets need map_modify_of_eq)

variable {a a' a'' : App}

/-- Every editor holds what it held, and there are no others. -/
def Retains (a a' : App) : Prop := a'.views.map Editor.held = a.views.map Editor.held

namespace Retains

theorem refl (a : App) : Retains a a := rfl

theorem trans (h : Retains a a') (h' : Retains a' a'') : Retains a a'' := Eq.trans h' h

theorem symm (h : Retains a a') : Retains a' a := Eq.symm h

/-- An editor goes on with what it held. -/
theorem exists_view (h : Retains a a') {id : ViewId} {e : Editor} (he : a.views[id]? = some e) :
    ∃ e', a'.views[id]? = some e' ∧ e'.held = e.held := by
  have hheld : (a'.views[id]?).map Editor.held = some e.held := by
    rw [← List.getElem?_map, h, List.getElem?_map, he]
    rfl
  exact Option.map_eq_some_iff.1 hheld

theorem length (h : Retains a a') : a'.views.length = a.views.length := by
  simpa using congrArg List.length h

theorem buffers (h : Retains a a') : a'.views.map (·.buffer) = a.views.map (·.buffer) := by
  have hbuffers := congrArg (List.map Held.buffer) h
  rw [List.map_map, List.map_map] at hbuffers
  exact hbuffers

end Retains

/-! ## Deliveries -/

theorem isIndifferent_retains : IsIndifferent Retains where
  refl := Retains.refl
  trans := Retains.trans
  decorated a id := by
    unfold Session.decorateView
    split
    · exact Retains.refl a
    · exact map_modify_of_eq fun _ _ => rfl
  moved a id e line he := by
    refine map_modify_of_eq fun e' he' => ?_
    obtain rfl := Option.some.inj (he.symm.trans he')
    exact e.held_scrollTo line
  told emit event a := by
    cases event with
    | diagnosed path =>
      refine ⟨_, _, [], rfl, Nat.le_refl 0, fun h => absurd rfl h, ?_⟩
      show (a.views.map _).map Editor.held = _
      rw [List.map_map]
      refine List.map_congr_left fun e _ => ?_
      show Editor.held (if _ then _ else _) = _
      split <;> rfl
    | _ => exact ⟨a.views, a.outside, [], rfl, Nat.le_refl 0, fun h => absurd rfl h, rfl⟩
  aside _ _ _ _ _ _ _ := rfl

theorem isKept_retains : IsKept Retains fun _ _ _ => True where
  toIsIndifferent := isIndifferent_retains
  validate {emit depth a} p hemit h := by
    cases hc : a.comparison? p with
    | none =>
      rw [Session.validate_of_comparison?_eq_none hc]
      exact Retains.refl a
    | some c =>
      have hfirst : Retains a (a.withFindings p c.candidate) := rfl
      exact hfirst.trans (isIndifferent_retains.posted hemit h hc fun _ _ => rfl)
  edit edit hemit h := isIndifferent_retains.edit hemit h edit fun _ hretains _ => hretains

theorem meets_emit_retains (depth : Nat) : Meets Retains (fun _ _ _ => True) depth Session.emit :=
  isKept_retains.meets_emit (fun _ _ => trivial) depth

/-- **Events do not reach what editors hold.** -/
theorem retains_emit (event : Event) (a : App) : Retains a (Session.emit event a) :=
  (meets_emit_retains (need event a)).keeps (Nat.le_refl _)

theorem retains_validate (p : Text) (a : App) : Retains a (a.validate Session.emit p) :=
  isKept_retains.validate p (meets_emit_retains _) (Nat.le_refl _)

theorem retains_edit (edit : ObserverEdit) (a : App) : Retains a (edit.perform Session.emit a) :=
  isKept_retains.edit edit (meets_emit_retains _) (Nat.le_refl _)

theorem retains_openDocument (a : App) (path text : Text) :
    Retains a (a.openDocument Session.emit path text) :=
  retains_edit (.openDocument path text) a

theorem retains_updateDocument (a : App) (path text : Text) :
    Retains a (a.updateDocument Session.emit path text) :=
  retains_edit (.updateDocument path text) a

theorem retains_setVisible (a : App) (views : List ViewId) :
    Retains a (a.setVisible Session.emit views) :=
  retains_emit (.shown views) { a with visible := views }

theorem retains_setActive (a : App) (view : Option ViewId) :
    Retains a (a.setActive Session.emit view) := by
  unfold Session.setActive
  split
  · exact Retains.refl a
  · exact retains_emit (.activated view) { a with active := view }

theorem retains_decorateVisible (a : App) : Retains a a.decorateVisible :=
  (isIndifferent_retains.decorateVisible a).2

theorem retains_start (a : App) : Retains a (a.start Session.emit) :=
  isKept_retains.start meets_emit_retains a

theorem retains_newLanguageFile {target : Path} {overwrite : Bool} {made : App} {reply : Reply}
    (h : Session.newLanguageFile Session.emit target overwrite a = .ok (made, reply)) :
    Retains a made := by
  have hmaking := Session.making_newLanguageFile Session.emit target overwrite a
  rw [h] at hmaking
  cases hmaking with
  | noDocument | taken | unparsed | blocked => exact Retains.refl a
  | unencodable | brokenOff => rfl
  | made _ _ _ _ _ => exact retains_updateDocument { a with disk := _ } _ _

/-! ## Parts of the application -/

theorem retains_requestFocus (a : App) (editor : ViewId) : Retains a (a.requestFocus editor) := rfl

theorem retains_commitText (a : App) (editor : ViewId) : Retains a (a.commitText editor) := by
  unfold commitText
  split
  · exact Retains.refl a
  · split
    · exact Retains.refl a
    · exact retains_updateDocument a _ _

theorem retains_giveFocus (a : App) (editor : ViewId) : Retains a (a.giveFocus editor) := by
  have hfocused : Retains a
      { a with views := a.views.mapIdx fun i e => { e with focused := i = editor } } := by
    refine List.ext_getElem? fun i => ?_
    rw [List.getElem?_map, List.getElem?_mapIdx, List.getElem?_map, Option.map_map]
    rfl
  exact hfocused.trans (retains_setActive _ _)

/-- Whatever was posted, handling it does not reach what editors hold. -/
theorem retains_handle (a : App) (p : Posted) : Retains a (a.handle p) := by
  unfold handle
  split
  · exact retains_commitText a _
  · exact retains_emit _ a
  · exact retains_emit _ a
  · unfold offerCompletions
    dsimp only
    split
    · exact Retains.refl a
    · rfl
  · exact retains_giveFocus a _

theorem retains_validateAll (a : App) : Retains a a.validateAll :=
  foldl_induction Retains.refl Retains.trans a.documents a fun a' d _ _ =>
    retains_validate d.path a'

theorem retains_endCompletion (a : App) : Retains a a.endCompletion := by
  unfold endCompletion
  dsimp only
  split <;> rfl

theorem retains_openPreview (a : App) (format : PreviewFormat) :
    Retains a (a.openPreview format).1 := by
  unfold Session.openPreview Session.showOutput
  split
  · exact Retains.refl a
  · dsimp only
    split <;> rfl

theorem retains_togglePreview (a : App) : Retains a a.togglePreview := by
  unfold togglePreview
  split
  · unfold Session.closePreview
    split <;> rfl
  · exact retains_openPreview a .panel

theorem retains_unmount (a : App) : Retains a a.unmount := by
  have hclosed := foldl_induction Retains.refl Retains.trans (a.unsubscribeAll a.own).previews
    (a.unsubscribeAll a.own) (f := fun a p => a.unsubscribeAll p.subscriptions) fun _ _ _ _ => rfl
  exact hclosed

theorem views_edit (a : App) (editor : ViewId) (e : Editor) (messages : List EditorMessage) :
    (a.edit editor e messages).views = a.views.modify editor fun _ => e := by
  have hposted (messages : List EditorMessage) (a : App) :
      (messages.foldl (fun a m => a.post (.message editor m)) a).views = a.views := by
    induction messages generalizing a with
    | nil => rfl
    | cons m messages ih => exact ih _
  exact hposted messages _

/-! ## Steps -/

/-- An editor does something, and posts what it tells. -/
def actIn (a : App) (editor : ViewId) (f : Editor → Except Fault (Editor × List EditorMessage)) :
    Except Error App :=
  match a.views[editor]? with
  | none => .ok a
  | some e =>
    match f e with
    | .error fault => .error (.editor fault)
    | .ok (e, messages) => .ok (a.edit editor e messages)

/-- Nothing happens in an editor that is not there. -/
theorem exists_of_actIn {editor : ViewId} {f : Editor → Except Fault (Editor × List EditorMessage)}
    (h : a.actIn editor f = .ok a') :
    a' = a ∨ ∃ e e' messages, a.views[editor]? = some e ∧ f e = .ok (e', messages) ∧
      a' = a.edit editor e' messages := by
  unfold actIn at h
  split at h
  · exact .inl (Except.ok.inj h).symm
  · next e he =>
    split at h
    · injection h
    · next e' messages hacted => exact .inr ⟨e, e', messages, he, hacted, (Except.ok.inj h).symm⟩

/-- Handles what was posted first. -/
def handleFirst (a : App) : App :=
  match a.outside.queue with
  | [] => a
  | p :: rest => handle (a.modify fun s => { s with queue := rest }) p

/-- One thing that happens to the application. Keys are pressed in any editor, and what was posted
is handled at any time later. -/
inductive Step
  | press (editor : ViewId) (name : Text) (produced : Option Text)
  | scroll (editor : ViewId) (delta : Int)
  | draw (editor : ViewId)
  | resize (editor : ViewId) (width height : Nat)
  | click (editor : ViewId)
  | handleFirst
  | runPending
  /-- Some other program writes files. -/
  | changeDisk (disk : Disk)
  | save
  | askForTarget
  | submit (value : Text)
  | promptKey (key : Text)
  | openInNewColumn (path : Text)
  | choose (choice : Option Text)
  | escape
  | togglePreview
  | toggleLinkedScroll
  | nextEditor
  | unmount

namespace Step

/-- The application after a step. It fails where the application raises an error. -/
def take (step : Step) (a : App) : Except Error App :=
  match step with
  | press editor name produced => a.actIn editor fun e => e.pressKey (.ofName name produced)
  | scroll editor delta => a.actIn editor fun e => .ok (e.scrollBy delta)
  | draw editor => a.actIn editor fun e => e.render.map fun r => (r.1, [])
  | resize editor width height => a.actIn editor fun e => .ok ({ e with width, height }, [])
  | click editor => .ok (a.requestFocus editor)
  | handleFirst => .ok a.handleFirst
  | runPending => .ok (Session.runPending a)
  | changeDisk disk => .ok { a with disk }
  | save => a.save
  | askForTarget => a.askForTarget
  | submit value => a.submit value
  | promptKey key => a.promptKey key
  | openInNewColumn path => a.openInNewColumn path
  | choose choice => a.choose choice
  | escape => .ok a.escape
  | togglePreview => .ok a.togglePreview
  | toggleLinkedScroll => .ok a.toggleLinkedScroll
  | nextEditor => .ok a.nextEditor
  | unmount => .ok a.unmount

/-- The step may open a file, and so load a text into an editor. -/
def opensFiles : Step → Bool
  | submit _ | promptKey _ | openInNewColumn _ => true
  | _ => false

end Step

/-- The states of the application: it is started on some files and shown, and then things happen to
it. -/
inductive Reachable : App → Prop
  | mount {disk : Disk} {paths : List Text} {referenceName : Text} {width height : Nat} {a : App} :
    App.new disk paths referenceName width height = .ok a → Reachable a.mount
  | step {a a' : App} (step : Step) : Reachable a → step.take a = .ok a' → Reachable a'

/-- The application after some steps. -/
def run : List Step → App → Except Error App
  | [], a => .ok a
  | step :: steps, a => (step.take a).bind (run steps)

/-- The first step of some leads to an application from which the others go on. -/
theorem exists_of_run_cons {step : Step} {steps : List Step} (h : run (step :: steps) a = .ok a') :
    ∃ next, step.take a = .ok next ∧ run steps next = .ok a' := by
  unfold run at h
  cases htake : step.take a with
  | error fault =>
    rw [htake] at h
    injection h
  | ok next =>
    rw [htake] at h
    exact ⟨next, rfl, h⟩

theorem Reachable.run {steps : List Step} (h : Reachable a) (hrun : run steps a = .ok a') :
    Reachable a' := by
  induction steps generalizing a with
  | nil =>
    obtain rfl := Except.ok.inj hrun
    exact h
  | cons step steps ih =>
    obtain ⟨next, htake, hrest⟩ := exists_of_run_cons hrun
    exact ih (h.step step htake) hrest

/-! ## What a step makes of an editor -/

/-- The editor whose text is written to the disk when the user saves, if it can be. -/
def written? (a : App) : Option ViewId :=
  a.active.bind fun id => a.views[id]?.bind fun e => e.document.bind fun path =>
    match a.disk.writeText (.ofText path) e.content with
    | (_, .ok ()) => some id
    | (_, .error _) => none

/-- What a step makes of an editor. -/
inductive Turn (a : App) (step : Step) (id : ViewId) (e e' : Editor) : Prop
  | retained : e'.held = e.held → Turn a step id e e'
  | pressed {name : Text} {produced : Option Text} {pressed : Editor} :
    step = .press id name produced → Pressed (.ofName name produced) e pressed →
    e'.held = pressed.held → Turn a step id e e'
  | completed {choice : Text} {buffer : Buffer} :
    step = .choose (some choice) → e'.held = (e.edited buffer).held → Turn a step id e e'
  | saved :
    step = .save → a.written? = some id → e'.held = { e with modified := false }.held →
    Turn a step id e e'
  | loaded {t : Text} :
    step.opensFiles = true → e.content ≠ t → e'.held = (e.loadText t).held → Turn a step id e e'

theorem Turn.of_held {step : Step} {id : ViewId} {e e' e'' : Editor} (h : Turn a step id e e')
    (hheld : e''.held = e'.held) : Turn a step id e e'' := by
  cases h with
  | retained h => exact .retained (hheld.trans h)
  | pressed hstep hpressed h => exact .pressed hstep hpressed (hheld.trans h)
  | completed hstep h => exact .completed hstep (hheld.trans h)
  | saved hstep hwritten h => exact .saved hstep hwritten (hheld.trans h)
  | loaded hopens hne h => exact .loaded hopens hne (hheld.trans h)

/-- The editor is new on its document. -/
def IsFresh (e : Editor) : Prop :=
  ∃ (d : Document) (column : Int), e.held = (Editor.ofDocument d column).held

/-- Every editor has had its turn, and only opening a file adds another one. -/
structure Evolves (step : Step) (a a' : App) : Prop where
  turn {id : ViewId} {e : Editor} :
    a.views[id]? = some e → ∃ e', a'.views[id]? = some e' ∧ Turn a step id e e'
  fresh {id : ViewId} {e' : Editor} :
    a.views[id]? = none → a'.views[id]? = some e' → step.opensFiles = true ∧ IsFresh e'

variable {step : Step}

namespace Evolves

theorem of_retains (h : Retains a a') : Evolves step a a' where
  turn he := by
    obtain ⟨e', he', hheld⟩ := h.exists_view he
    exact ⟨e', he', .retained hheld⟩
  fresh {id e'} hnone he' := by
    obtain ⟨e, he, -⟩ := h.symm.exists_view he'
    rw [hnone] at he
    simp at he

theorem retains (h : Evolves step a a') (hretains : Retains a' a'') : Evolves step a a'' where
  turn he := by
    obtain ⟨e', he', hturn⟩ := h.turn he
    obtain ⟨e'', he'', hheld⟩ := hretains.exists_view he'
    exact ⟨e'', he'', hturn.of_held hheld⟩
  fresh hnone he'' := by
    obtain ⟨e', he', hheld⟩ := hretains.symm.exists_view he''
    obtain ⟨hopens, d, column, hnew⟩ := h.fresh hnone he'
    exact ⟨hopens, d, column, hheld.symm.trans hnew⟩

/-- One editor has its turn, and the others are left alone. -/
theorem of_modify {editor : ViewId} {f : Editor → Editor}
    (hviews : a'.views = a.views.modify editor f)
    (hturn : ∀ e, a.views[editor]? = some e → Turn a step editor e (f e)) : Evolves step a a' where
  turn {id e} he := by
    rw [hviews, List.getElem?_modify, he]
    refine ⟨_, rfl, ?_⟩
    dsimp only
    split
    · next heq => exact heq ▸ hturn e (heq ▸ he)
    · exact .retained rfl
  fresh {id e'} hnone he' := by
    rw [hviews, List.getElem?_modify, hnone] at he'
    simp at he'

end Evolves

theorem evolves_of_actIn {editor : ViewId} {f : Editor → Except Fault (Editor × List EditorMessage)}
    (h : a.actIn editor f = .ok a')
    (hturn : ∀ e e' messages, f e = .ok (e', messages) → Turn a step editor e e') :
    Evolves step a a' := by
  rcases exists_of_actIn h with rfl | ⟨e, e', messages, he, hacted, rfl⟩
  · exact .of_retains (Retains.refl a')
  · refine .of_modify (views_edit a editor e' messages) fun e₁ he₁ => ?_
    obtain rfl := Option.some.inj (he.symm.trans he₁)
    exact hturn e e' messages hacted

theorem evolves_of_save (h : a.save = .ok a') : Evolves .save a a' := by
  rcases exists_of_save h with rfl | ⟨disk, reason, rfl⟩ |
    ⟨id, e, path, disk, hactive, he, hdocument, hwrite, hsaved⟩
  · exact .of_retains (Retains.refl a')
  · exact .of_retains rfl
  · have hwritten : a.written? = some id := by
      unfold written?
      simp only [hactive, he, hdocument, hwrite, Option.bind_some]
    have hturn : Evolves .save a (a.saved id disk path) :=
      .of_modify rfl fun e _ => .saved rfl hwritten rfl
    rcases hsaved with rfl | rfl
    · exact hturn
    · exact hturn.retains (retains_validateAll _)

theorem evolves_of_choose {choice : Option Text} (h : a.choose choice = .ok a') :
    Evolves (.choose choice) a a' := by
  rcases exists_of_choose h with
    rfl | ⟨text, id, place, code, e, e', rfl, -, -, he, hreplaced, rfl⟩
  · exact .of_retains (retains_endCompletion a)
  · have hinserted : Evolves (.choose (some text)) a (a.modifyView id fun _ => e') := by
      refine .of_modify rfl fun e₁ he₁ => ?_
      obtain rfl := Option.some.inj (he.symm.trans he₁)
      unfold Editor.replaceColumns at hreplaced
      split at hreplaced
      · obtain rfl := Except.ok.inj hreplaced
        exact .retained rfl
      · obtain ⟨buffer, -, rfl⟩ := exists_of_map hreplaced
        exact .completed rfl rfl
    exact hinserted.retains ((retains_commitText _ id).trans (retains_endCompletion _))

theorem evolves_reloadEditor {d : Document} (hopens : step.opensFiles = true) (a : App)
    (editor : ViewId) : Evolves step a (a.reloadEditor editor d) := by
  rcases a.reloadEditor_eq editor d with ⟨-, heq⟩ | ⟨e, he, hne, heq⟩
  · rw [heq]
    exact .of_retains (Retains.refl a)
  · rw [heq]
    have hloaded : Evolves step a (a.modifyView editor fun e =>
        (e.loadText d.text).setFindings (a.findings d.path)) := by
      refine .of_modify rfl fun e₁ he₁ => ?_
      obtain rfl := Option.some.inj (he.symm.trans he₁)
      exact .loaded hopens hne rfl
    exact hloaded.retains (retains_decorateVisible _)

/-- A new editor comes behind the others. -/
theorem evolves_addEditor (hopens : step.opensFiles = true) (a : App) (d : Document)
    (column : Nat) :
    Evolves step a (a.addEditor d column) where
  turn {id e} he := by
    refine ⟨e, ?_, .retained rfl⟩
    show (a.views ++ [_])[id]? = some e
    rw [List.getElem?_append_left (List.getElem?_eq_some_iff.1 he).1]
    exact he
  fresh {id e'} hnone he' := by
    refine ⟨hopens, d, column, ?_⟩
    have hadded : (a.views ++ [_])[id]? = some e' := he'
    rw [List.getElem?_append_right (List.getElem?_eq_none_iff.1 hnone)] at hadded
    obtain ⟨_, rfl⟩ := List.getElem?_eq_some_iff.1 hadded
    simp [held, Editor.ofDocument, Editor.ofText]

/-- What an editor holds when a file is opened is what it held before that was read. -/
theorem Evolves.of_retains_retains (hretains : Retains a a') (h : Evolves step a' a'')
    (hopens : step.opensFiles = true) : Evolves step a a'' where
  turn {id e} he := by
    obtain ⟨e₁, he₁, hheld⟩ := hretains.exists_view he
    obtain ⟨e', he', hturn⟩ := h.turn he₁
    refine ⟨e', he', ?_⟩
    have hbuffer : e₁.buffer = e.buffer := congrArg Held.buffer hheld
    cases hturn with
    | retained h => exact .retained (h.trans hheld)
    | pressed hstep | completed hstep | saved hstep => simp [hstep, Step.opensFiles] at hopens
    | @loaded t _ hne h =>
      refine .loaded hopens ?_ (h.trans (held_loadText_congr hheld t))
      rw [Editor.content, ← hbuffer]
      exact hne
  fresh {id e'} hnone he' := by
    refine h.fresh ?_ he'
    rw [List.getElem?_eq_none_iff, hretains.length]
    exact List.getElem?_eq_none_iff.1 hnone

theorem evolves_of_openInNewColumn {path : Text} (hopens : step.opensFiles = true)
    (h : a.openInNewColumn path = .ok a') : Evolves step a a' := by
  obtain ⟨text, opened, -, rfl, hshown⟩ := exists_of_openInNewColumn h
  refine Evolves.of_retains_retains (retains_openDocument a path text) ?_ hopens
  rcases hshown with ⟨-, rfl⟩ | ⟨d, -, ⟨id, e, -, -, rfl⟩ | ⟨-, rfl⟩⟩
  · exact .of_retains (Retains.refl _)
  · exact (evolves_reloadEditor hopens _ id).retains (retains_requestFocus _ id)
  · have hadded := evolves_addEditor hopens (a.openDocument Session.emit path text) d
      (a.openDocument Session.emit path text).views.length
    exact (hadded.retains (retains_setVisible _ _)).retains (retains_requestFocus _ _)

theorem evolves_of_newLanguageFile {target : Text} {overwrite : Bool}
    (hopens : step.opensFiles = true) (h : a.newLanguageFile target overwrite = .ok a') :
    Evolves step a a' := by
  rcases exists_of_newLanguageFile h with
    rfl | ⟨made, reply, hmade, ⟨p, -, -, hopened⟩ | ⟨-, ⟨isError, rfl⟩ | ⟨p, rfl⟩⟩⟩
  · exact .of_retains (Retains.refl a')
  · have htold : Retains a (tell made reply.message) := (retains_newLanguageFile hmade).trans rfl
    exact Evolves.of_retains_retains htold (evolves_of_openInNewColumn hopens hopened) hopens
  · exact .of_retains ((retains_newLanguageFile hmade).trans rfl)
  · exact .of_retains ((retains_newLanguageFile hmade).trans rfl)

theorem evolves_of_submit {value : Text} (h : a.submit value = .ok a') :
    Evolves (.submit value) a a' := by
  have hpopped : Retains a a.popPrompt := rfl
  rcases exists_of_submit h with rfl | hmade
  · exact .of_retains (Retains.refl a')
  · exact Evolves.of_retains_retains hpopped (evolves_of_newLanguageFile rfl hmade) rfl

theorem evolves_of_promptKey {key : Text} (h : a.promptKey key = .ok a') :
    Evolves (.promptKey key) a a' := by
  have hpopped : Retains a a.popPrompt := rfl
  rcases exists_of_promptKey h with rfl | rfl | ⟨target, hmade⟩
  · exact .of_retains (Retains.refl a')
  · exact .of_retains hpopped
  · exact Evolves.of_retains_retains hpopped (evolves_of_newLanguageFile rfl hmade) rfl

/-- **What a step makes of the editors,** one case for each kind of step. -/
theorem evolves_of_take (h : step.take a = .ok a') : Evolves step a a' := by
  have hretained {b : App} (h : (.ok b : Except Error App) = .ok a') (hb : Retains a b) :
      Evolves step a a' := by
    obtain rfl := Except.ok.inj h
    exact .of_retains hb
  cases step with
  | press editor name produced =>
    exact evolves_of_actIn h fun e e' messages hpress =>
      .pressed rfl (pressed_of_pressKey hpress) rfl
  | scroll editor delta =>
    refine evolves_of_actIn (f := fun e => .ok (e.scrollBy delta)) h
      fun e e' messages hscroll => .retained ?_
    obtain rfl : (e.scrollBy delta).1 = e' := congrArg Prod.fst (Except.ok.inj hscroll)
    exact e.held_scrollBy delta
  | draw editor =>
    refine evolves_of_actIn (f := fun e => e.render.map fun r : Editor × RichText => (r.1, [])) h
      fun e e' messages hdraw => .retained ?_
    obtain ⟨⟨drawn, text⟩, hrender, heq⟩ := exists_of_map hdraw
    obtain rfl : drawn = e' := congrArg Prod.fst heq
    exact held_of_render hrender
  | resize editor width height =>
    refine evolves_of_actIn (f := fun e => .ok ({ e with width, height }, [])) h
      fun e e' messages hresize => .retained ?_
    obtain rfl : _ = e' := congrArg Prod.fst (Except.ok.inj hresize)
    rfl
  | click editor => exact hretained h (retains_requestFocus a editor)
  | handleFirst =>
    refine hretained h ?_
    unfold App.handleFirst
    split
    · exact Retains.refl a
    · exact retains_handle (a.modify _) _
  | runPending =>
    refine hretained h ?_
    unfold Session.runPending
    split <;> rfl
  | changeDisk disk => exact hretained h rfl
  | save => exact evolves_of_save h
  | askForTarget =>
    have hasked : a.askForTarget = .ok a' := h
    rcases exists_of_askForTarget hasked with ⟨message, rfl⟩ | ⟨p, rfl⟩
    · exact .of_retains rfl
    · exact .of_retains rfl
  | submit value => exact evolves_of_submit h
  | promptKey key => exact evolves_of_promptKey h
  | openInNewColumn path => exact evolves_of_openInNewColumn rfl h
  | choose choice => exact evolves_of_choose h
  | escape =>
    refine hretained h ?_
    unfold App.escape
    split
    · exact retains_endCompletion a
    · exact Retains.refl a
  | togglePreview => exact hretained h (retains_togglePreview a)
  | toggleLinkedScroll => exact hretained h rfl
  | nextEditor =>
    refine hretained h ?_
    unfold App.nextEditor
    split
    · exact Retains.refl a
    · rfl
  | unmount => exact hretained h (retains_unmount a)

/-! ## The first editors -/

theorem views_openAll {paths : List Text} (h : a.openAll paths = .ok a') (hnone : a.views = []) :
    a'.views = [] := by
  induction paths generalizing a with
  | nil =>
    obtain rfl := Except.ok.inj h
    exact hnone
  | cons path paths ih =>
    unfold openAll at h
    split at h
    · injection h
    · next text _ =>
      have hretains := (retains_openDocument a path text).length
      rw [hnone] at hretains
      exact ih h (List.length_eq_zero_iff.1 hretains)

/-- When the application is shown all editors are new. -/
theorem isFresh_of_mount (hnone : a.views = []) {e : Editor} (he : e ∈ a.mount.views) :
    IsFresh e := by
  have hadded : ∀ (documents : List (Document × Nat)) (a : App), (∀ e ∈ a.views, IsFresh e) →
      ∀ e ∈ (documents.foldl (fun a p => addEditor a p.1 p.2) a).views, IsFresh e := by
    intro documents
    induction documents with
    | nil => exact fun a h => h
    | cons p documents ih =>
      refine fun a h => ih _ fun e he => ?_
      rcases List.mem_append.1 he with hold | hnew
      · exact h e hold
      · obtain rfl := List.mem_singleton.1 hnew
        exact ⟨p.1, p.2, rfl⟩
  have hviews := hadded a.documents.zipIdx a (by simp [hnone])
  unfold mount at he
  dsimp only at he
  generalize a.documents.zipIdx.foldl (fun a p => addEditor a p.1 p.2) a = added at hviews he
  have hshown : Retains added ((added.subscribe .diagnosed .outside).setVisible Session.emit
      (editors (added.subscribe .diagnosed .outside))) :=
    retains_setVisible (added.subscribe .diagnosed .outside) _
  generalize (added.subscribe .diagnosed .outside).setVisible Session.emit
      (editors (added.subscribe .diagnosed .outside)) = shown at hshown he
  have hretains : Retains added (refreshPanel (Session.start Session.emit
      (if shown.views.isEmpty then shown
        else requestFocus (shown.setActive Session.emit (some 0)) 0))) := by
    refine hshown.trans (Retains.trans ?_ (retains_start _))
    split
    · exact Retains.refl shown
    · exact retains_setActive shown (some 0)
  obtain ⟨id, hid⟩ := List.mem_iff_getElem?.1 he
  obtain ⟨e₁, he₁, hheld⟩ := hretains.symm.exists_view hid
  obtain ⟨d, column, hnew⟩ := hviews e₁ (List.mem_of_getElem? he₁)
  exact ⟨d, column, hheld.symm.trans hnew⟩

/-- An empty object on the disk, under the name of a language file. -/
def emptyFile : Disk where
  entries := [(⟨.above 0, ["ko_kr.json"]⟩, .file [0x7b, 0x7d])]

/-- The application is started on that file. -/
def startedOnEmpty : Except Error App :=
  ((App.new emptyFile ["ko_kr.json"] "en_us.json" 40 6).mapError .file).map App.mount

theorem exists_of_startedOnEmpty (h : startedOnEmpty = .ok a) :
    ∃ new, App.new emptyFile ["ko_kr.json"] "en_us.json" 40 6 = .ok new ∧ a = new.mount := by
  unfold startedOnEmpty at h
  cases hnew : App.new emptyFile ["ko_kr.json"] "en_us.json" 40 6 with
  | error e =>
    rw [hnew] at h
    injection h
  | ok new =>
    rw [hnew] at h
    exact ⟨new, rfl, (Except.ok.inj h).symm⟩

end App

end LangFile
