import LangFile.Proofs.App.Course

/-!
# What the application brings up to date by itself

When something has changed the application follows: it draws the editors, scrolls them, posts
findings, and renders previews. None of it reaches documents, texts or selections, and what is put
into the queue comes behind what is there. The news of findings brings them to their editors at
once, as nothing else listens to it.

1. What stays when the application follows (`Frame`), and what follows (`Refreshes`).
2. The single things that listeners do.
3. Deliveries (`refreshes_emit`), and what the application does after its own changes.
-/

namespace LangFile

open Editor

/-! ## What stays -/

/-- What an editor is to the rest of the application: its document in its column, its text, and what
is selected of it. -/
structure Core where
  document : Option Text
  column : Int
  buffer : Buffer
  anchor : Option Cursor

namespace Editor

variable {e e' : Editor}

/-- What the editor is to the rest of the application. -/
def core (e : Editor) : Core := ⟨e.document, e.column, e.buffer, e.anchor⟩

theorem core_of_held (h : e'.held = e.held) : e'.core = e.core := by
  simp only [held, Held.mk.injEq] at h
  simp [core, h]

theorem findings_scrollTo (e : Editor) (line : Int) : (e.scrollTo line).1.findings = e.findings := by
  unfold scrollTo
  dsimp only
  split <;> rfl

end Editor

namespace App

open Session (map_modify_of_eq)

variable {a a' a'' : App} {path : Text}

/-- Documents, texts, selections, subscriptions and previews stay, and so does what is queued. -/
structure Frame (a a' : App) : Prop where
  documents : a'.documents = a.documents
  cores : a'.views.map Editor.core = a.views.map Editor.core
  signal : a'.signal = a.signal
  own : a'.own = a.own
  previews : a'.previews = a.previews
  nextPreview : a'.nextPreview = a.nextPreview
  preview : a'.outside.preview = a.outside.preview
  queue : a.outside.queue <+: a'.outside.queue

/-- The findings and the outputs stay, too. -/
structure Beside (a a' : App) : Prop extends Frame a a' where
  findings : a'.views.map (·.findings) = a.views.map (·.findings)
  diagnostics : a'.diagnostics = a.diagnostics
  outputs : a'.outputs = a.outputs

namespace Frame

theorem refl (a : App) : Frame a a := ⟨rfl, rfl, rfl, rfl, rfl, rfl, rfl, List.prefix_rfl⟩

theorem trans (h : Frame a a') (h' : Frame a' a'') : Frame a a'' where
  documents := h'.documents.trans h.documents
  cores := h'.cores.trans h.cores
  signal := h'.signal.trans h.signal
  own := h'.own.trans h.own
  previews := h'.previews.trans h.previews
  nextPreview := h'.nextPreview.trans h.nextPreview
  preview := h'.preview.trans h.preview
  queue := h.queue.trans h'.queue

theorem document? (h : Frame a a') (path : Text) : a'.document? path = a.document? path := by
  unfold Session.document?
  rw [h.documents]

theorem length (h : Frame a a') : a'.views.length = a.views.length := by
  simpa using congrArg List.length h.cores

theorem getElem?_core (h : Frame a a') (id : ViewId) :
    a'.views[id]?.map Editor.core = a.views[id]?.map Editor.core := by
  rw [← List.getElem?_map, h.cores, List.getElem?_map]

theorem exists_view (h : Frame a a') {id : ViewId} {e : Editor} (he : a.views[id]? = some e) :
    ∃ e', a'.views[id]? = some e' ∧ e'.core = e.core := by
  have hcore := h.getElem?_core id
  rw [he] at hcore
  exact Option.map_eq_some_iff.1 hcore

theorem exists_view_before (h : Frame a a') {id : ViewId} {e' : Editor}
    (he' : a'.views[id]? = some e') : ∃ e, a.views[id]? = some e ∧ e.core = e'.core := by
  have hcore := (h.getElem?_core id).symm
  rw [he'] at hcore
  exact Option.map_eq_some_iff.1 hcore

end Frame

namespace Beside

theorem refl (a : App) : Beside a a := ⟨Frame.refl a, rfl, rfl, rfl⟩

theorem trans (h : Beside a a') (h' : Beside a' a'') : Beside a a'' where
  toFrame := h.toFrame.trans h'.toFrame
  findings := h'.findings.trans h.findings
  diagnostics := h'.diagnostics.trans h.diagnostics
  outputs := h'.outputs.trans h.outputs

/-- Editors are drawn, scrolled or marked. -/
theorem of_views {views : List Editor} (hcores : views.map Editor.core = a.views.map Editor.core)
    (hfindings : views.map (·.findings) = a.views.map (·.findings)) :
    Beside a { a with views } :=
  ⟨⟨rfl, hcores, rfl, rfl, rfl, rfl, rfl, List.prefix_rfl⟩, hfindings, rfl, rfl⟩

/-- One editor is drawn, scrolled or marked. -/
theorem of_modify {id : ViewId} {f : Editor → Editor}
    (h : ∀ e, a.views[id]? = some e → (f e).core = e.core ∧ (f e).findings = e.findings) :
    Beside a (a.modifyView id f) :=
  of_views (map_modify_of_eq fun e he => (h e he).1) (map_modify_of_eq fun e he => (h e he).2)

/-- Something else happens to the surroundings, or something is posted. -/
theorem of_outside {outside : AppState} (hpreview : outside.preview = a.outside.preview)
    (hqueue : a.outside.queue <+: outside.queue) : Beside a { a with outside } :=
  ⟨⟨rfl, rfl, rfl, rfl, rfl, rfl, hpreview, hqueue⟩, rfl, rfl, rfl⟩

end Beside

/-- What follows when something has happened: beside what matters, findings are posted and reach
their editors, and open previews are rendered anew. -/
inductive Refreshes : App → App → Prop
  | beside {a a' : App} : Beside a a' → Refreshes a a'
  | trans {a a' a'' : App} : Refreshes a a' → Refreshes a' a'' → Refreshes a a''
  | posted (a : App) (path : Text) (fs : List Finding) :
    Refreshes a (refreshEditors (a.withFindings path fs) path)
  | rendered (a : App) {p : PreviewState} :
    p ∈ a.previews → Refreshes a (a.showOutput p.id p.view p.format)

theorem core_ite_setFindings (e : Editor) (p : Prop) [Decidable p] (fs : List Finding) :
    (if p then e.setFindings fs else e).core = e.core := by
  split <;> rfl

theorem Frame.showOutput (a : App) (id : PreviewId) (view : ViewId) (format : PreviewFormat) :
    Frame a (a.showOutput id view format) := by
  unfold Session.showOutput
  split <;> exact ⟨rfl, rfl, rfl, rfl, rfl, rfl, rfl, List.prefix_rfl⟩

namespace Refreshes

theorem refl (a : App) : Refreshes a a := .beside (Beside.refl a)

theorem frame (h : Refreshes a a') : Frame a a' := by
  induction h with
  | beside h => exact h.toFrame
  | trans _ _ ih ih' => exact ih.trans ih'
  | posted a path fs =>
    refine ⟨rfl, ?_, rfl, rfl, rfl, rfl, rfl, List.prefix_rfl⟩
    show (a.views.map _).map Editor.core = _
    rw [List.map_map]
    exact List.map_congr_left fun e _ => core_ite_setFindings e _ _
  | rendered a _ => exact Frame.showOutput a _ _ _

end Refreshes

/-! ## What listeners do -/

/-- The news of findings goes to the application itself, and to nothing else. -/
def HearsFindings (a : App) : Prop :=
  ∃ id, a.subscribers .diagnosed = [⟨id, ⟨.diagnosed, .outside⟩⟩]

theorem HearsFindings.of_signal (h : a.HearsFindings) (hsignal : a'.signal = a.signal) :
    a'.HearsFindings := by
  unfold HearsFindings Session.subscribers
  rw [hsignal]
  exact h

theorem Refreshes.hearsFindings (h : Refreshes a a') (hhears : a.HearsFindings) :
    a'.HearsFindings :=
  hhears.of_signal h.frame.signal

theorem beside_refreshPanel (a : App) : Beside a a.refreshPanel :=
  .of_outside rfl List.prefix_rfl

/-- The news of findings reaches the editors of their document, and the panel. -/
theorem emitNested_diagnosed (h : a.HearsFindings) (n : Nat) (path : Text) :
    Session.emitNested (n + 1) (.diagnosed path) a = (a.refreshEditors path).refreshPanel := by
  obtain ⟨id, hid⟩ := h
  have hmem : (⟨id, ⟨.diagnosed, .outside⟩⟩ : Subscription Interest) ∈ a.signal.subscriptions := by
    have hsub : _ ∈ a.subscribers .diagnosed := hid ▸ List.mem_singleton_self _
    exact (List.mem_filter.1 hsub).1
  have hactive : a.signal.isActive id = true := List.any_eq_true.2 ⟨_, hmem, by simp⟩
  show deliver _ _ (a.subscribers .diagnosed) a = _
  rw [hid]
  show (if a.signal.isActive id then _ else a) = _
  rw [if_pos hactive]
  rfl

variable {n : Nat}

theorem refreshes_post (h : a.HearsFindings) (path : Text) (fs : List Finding) :
    Refreshes a (Session.post (Session.emitNested (n + 1)) path fs a) := by
  have hposted : Session.post (Session.emitNested (n + 1)) path fs a
      = refreshPanel (refreshEditors (a.withFindings path fs) path) :=
    emitNested_diagnosed (a := a.withFindings path fs) (h.of_signal rfl) n path
  rw [hposted]
  exact .trans (.posted a path fs) (.beside (beside_refreshPanel _))

theorem refreshes_validate (h : a.HearsFindings) (path : Text) :
    Refreshes a (a.validate (Session.emitNested (n + 1)) path) := by
  unfold Session.validate
  split
  · exact .refl a
  · next c _ =>
    have hfirst : Refreshes a (Session.post (Session.emitNested (n + 1)) path c.candidate a) :=
      refreshes_post h path c.candidate
    exact hfirst.trans (refreshes_post (hfirst.hearsFindings h) _ _)

theorem beside_decorateView (a : App) (id : ViewId) : Beside a (a.decorateView id) := by
  unfold Session.decorateView
  split
  · exact Beside.refl a
  · next d _ =>
    have hhandles : Beside a { a with handles := (decorate d.text a.handles).2 } :=
      ⟨⟨rfl, rfl, rfl, rfl, rfl, rfl, rfl, List.prefix_rfl⟩, rfl, rfl, rfl⟩
    exact hhandles.trans (.of_modify fun _ _ => ⟨rfl, rfl⟩)

theorem beside_decorateVisible (a : App) : Beside a a.decorateVisible :=
  foldl_induction Beside.refl Beside.trans a.visible a fun a' id _ _ => beside_decorateView a' id

theorem beside_reveal (emit : Delivery Editor AppState) (id : ViewId) (line : Int) (a : App) :
    Beside a (a.reveal emit id line) := by
  unfold Session.reveal
  split
  · exact Beside.refl a
  · next e he =>
    have hmoved : Beside a (a.modifyView id fun _ => (e.scrollTo line).1) :=
      .of_modify fun e' he' => by
        obtain rfl := Option.some.inj (he.symm.trans he')
        exact ⟨core_of_held (e.held_scrollTo line), e.findings_scrollTo line⟩
    dsimp only
    split
    · exact hmoved
    · exact hmoved.trans (.of_outside rfl (List.prefix_append _ _))

theorem beside_scrollLinked (emit : Delivery Editor AppState) (source : ViewId) (line : Int)
    (a : App) : Beside a (a.scrollLinked emit source line) := by
  unfold Session.scrollLinked
  split
  · exact Beside.refl a
  · dsimp only
    have hbegun : Beside a { a with scroll := { a.scroll with inProgress := true } } :=
      ⟨⟨rfl, rfl, rfl, rfl, rfl, rfl, rfl, List.prefix_rfl⟩, rfl, rfl, rfl⟩
    have hscrolled := hbegun.trans (foldl_induction Beside.refl Beside.trans
      (f := fun (s : App) id => if id ≠ source && s.viewColumn id ≠ s.viewColumn source
        then s.reveal emit id line else s)
      a.visible { a with scroll := { a.scroll with inProgress := true } } fun s id _ _ => by
        split
        · exact beside_reveal emit id line s
        · exact Beside.refl s)
    generalize a.visible.foldl _ _ = scrolled at hscrolled ⊢
    refine hscrolled.trans ?_
    split <;> exact ⟨⟨rfl, rfl, rfl, rfl, rfl, rfl, rfl, List.prefix_rfl⟩, rfl, rfl, rfl⟩

theorem refreshes_refreshPreview (id : PreviewId) (e : Event) (a : App) :
    Refreshes a (a.refreshPreview id e) := by
  unfold Session.refreshPreview
  split
  · exact .refl a
  · next p hp =>
    refine iteInduction (fun _ => ?_) fun _ => .refl a
    have hid : p.id = id := by simpa using List.find?_some hp
    rw [← hid]
    exact .rendered a (List.mem_of_find?_eq_some hp)

/-- Whatever listens, what it does brings something up to date. -/
theorem refreshes_react (h : a.HearsFindings) (l : Listener) {e : Event}
    (he : e.topic ≠ .diagnosed) :
    Refreshes a (a.react (Session.emitNested (n + 1)) l e) := by
  cases l with
  | validation =>
    cases e with
    | opened path => exact refreshes_validate h path
    | changed path =>
      exact (refreshes_validate h path).trans (.beside (beside_decorateVisible _))
    | _ => exact .refl a
  | decoration => exact .beside (beside_decorateVisible a)
  | scrolling =>
    cases e with
    | scrolled id line => exact .beside (beside_scrollLinked _ id line a)
    | _ => exact .refl a
  | preview id => exact refreshes_refreshPreview id e a
  | outside =>
    cases e with
    | diagnosed path => exact absurd rfl he
    | _ => exact .refl a

/-! ## Deliveries -/

theorem refreshes_callSubscribers (h : a.HearsFindings) {e : Event} (he : e.topic ≠ .diagnosed) :
    Refreshes a (a.callSubscribers (Session.emitNested (n + 1)) e) :=
  deliver_induction Refreshes.refl Refreshes.trans fun _ interest hs =>
    refreshes_react (hs.hearsFindings h) interest.listener he

/-- **An event brings something up to date, and does nothing else.** -/
theorem refreshes_emit (h : a.HearsFindings) {e : Event} (he : e.topic ≠ .diagnosed) :
    Refreshes a (Session.emit e a) :=
  refreshes_callSubscribers (n := 2) h he

theorem refreshes_validate_emit (h : a.HearsFindings) (path : Text) :
    Refreshes a (a.validate Session.emit path) :=
  refreshes_validate (n := 3) h path

theorem refreshes_validateAll (h : a.HearsFindings) : Refreshes a a.validateAll :=
  foldl_induction Refreshes.refl Refreshes.trans a.documents a fun _ d _ hs =>
    refreshes_validate_emit (hs.hearsFindings h) d.path

theorem refreshes_setVisible (h : a.HearsFindings) (views : List ViewId) :
    Refreshes a (a.setVisible Session.emit views) := by
  have hset : Beside a { a with visible := views } :=
    ⟨⟨rfl, rfl, rfl, rfl, rfl, rfl, rfl, List.prefix_rfl⟩, rfl, rfl, rfl⟩
  exact .trans (.beside hset)
    (refreshes_emit (e := .shown views) (h.of_signal hset.signal) (by simp [Event.topic]))

theorem refreshes_setActive (h : a.HearsFindings) (view : Option ViewId) :
    Refreshes a (a.setActive Session.emit view) := by
  unfold Session.setActive
  split
  · exact .refl a
  · have hset : Beside a { a with active := view } :=
      ⟨⟨rfl, rfl, rfl, rfl, rfl, rfl, rfl, List.prefix_rfl⟩, rfl, rfl, rfl⟩
    exact .trans (.beside hset)
      (refreshes_emit (e := .activated view) (h.of_signal hset.signal) (by simp [Event.topic]))

theorem beside_requestFocus (a : App) (editor : ViewId) : Beside a (a.requestFocus editor) :=
  .of_outside rfl (List.prefix_append _ _)

theorem refreshes_giveFocus (h : a.HearsFindings) (editor : ViewId) :
    Refreshes a (a.giveFocus editor) := by
  have hfocused : Beside a
      { a with views := a.views.mapIdx fun i e => { e with focused := i = editor } } := by
    refine .of_views (List.ext_getElem? fun i => ?_) (List.ext_getElem? fun i => ?_)
    all_goals
      rw [List.getElem?_map, List.getElem?_mapIdx, List.getElem?_map, Option.map_map]
      rfl
  have hactive := refreshes_setActive (h.of_signal hfocused.signal) (some editor)
  exact .trans (.trans (.beside hfocused) hactive) (.beside (beside_refreshPanel _))

theorem beside_endCompletion (a : App) : Beside a a.endCompletion := by
  unfold endCompletion
  dsimp only
  split
  · exact .of_outside rfl (List.prefix_append _ _)
  · exact .of_outside rfl List.prefix_rfl

/-! ## Changes of documents -/

/-- The document at a path has another text. -/
def withText (a : App) (d : Document) (text : Text) : App := a.setDocument (d.setText text)

/-- What follows when a document is given a text that it does not have. -/
theorem refreshes_updateDocument (h : a.HearsFindings) {d : Document} {text : Text}
    (hd : a.document? path = some d) (hne : d.text ≠ text) :
    Refreshes (a.withText d text) (a.updateDocument Session.emit path text) := by
  unfold Session.updateDocument
  rw [hd]
  dsimp only
  rw [if_neg hne]
  exact refreshes_emit (a := a.withText d text) (e := .changed path) (h.of_signal rfl)
    (by simp [Event.topic])

end App

end LangFile
