import LangFile.Proofs.App.Happening
import LangFile.Proofs.App.Synced
import LangFile.Proofs.Editor.Readable

/-!
# The preview shows what is selected

The preview is rendered anew when its editor tells that the selection changed, and when the document
of that editor changes. Most of what changes the selection is told of or goes with a change of the
document. Two things are not: a file that is opened over an open one is loaded into the editor after
its document has changed, and a completion may put in what already stands there. Apart from these the
preview shows what is selected, as soon as the news of it has been handled.

1. Selections can be read in every state (`Reachable.readable`).
2. What the preview shows (`Shows`), and what leaves it as it is.
3. An event that concerns the preview renders it (`shows_emit`).
4. What one step keeps (`Happens.keepsUp`), and which steps do not (`Step.isSilent`).
5. All together (`preview_shows_selection`), and a preview that is left behind
   (`preview_misses_overwriting`).
-/

namespace LangFile

open Editor

namespace App

variable {a a' a'' b : App} {id : ViewId} {e e' : Editor} {p : PreviewState} {path : Text}
  {step : Step}

/-! ## Selections can be read -/

/-- In every editor the selection can be read. -/
def Readable (a : App) : Prop :=
  ∀ (id : ViewId) (e : Editor), a.views[id]? = some e → e.IsReadable

theorem selectedText_of_core (h : e'.core = e.core) : e'.selectedText = e.selectedText := by
  simp only [core, Core.mk.injEq] at h
  obtain ⟨-, -, hbuffer, hanchor⟩ := h
  exact selectedText_congr hbuffer hanchor

namespace Readable

theorem frame (h : a.Readable) (hframe : Frame a a') : a'.Readable := by
  intro id e' he'
  obtain ⟨e, he, hcore⟩ := hframe.exists_view_before he'
  simp only [core, Core.mk.injEq] at hcore
  obtain ⟨-, -, hbuffer, hanchor⟩ := hcore
  exact (h id e he).of_eq hbuffer.symm hanchor.symm

theorem modifyView (h : a.Readable) {f : Editor → Editor}
    (hf : ∀ e, a.views[id]? = some e → (f e).IsReadable) : Readable (a.modifyView id f) := by
  intro id' e' he'
  have hview : (a.views.modify id f)[id']? = some e' := he'
  rw [List.getElem?_modify] at hview
  obtain ⟨e, he, heq⟩ := Option.map_eq_some_iff.1 hview
  split at heq
  · next hid =>
    obtain rfl := heq
    exact hf e (hid ▸ he)
  · obtain rfl := heq
    exact h id' e he

theorem replace (h : a.Readable) (id : ViewId) (he' : e'.IsReadable) :
    Readable (a.modifyView id fun _ => e') :=
  h.modifyView fun _ _ => he'

theorem commitText (h : a.Readable) (hwired : a.IsWired) (hpaired : a.IsPaired) (id : ViewId) :
    Readable (a.commitText id) := by
  cases he : a.views[id]? with
  | none => rwa [commitText_of_view_eq_none he]
  | some e =>
    obtain ⟨d, -, -, ⟨-, heq⟩ | ⟨-, heq⟩⟩ := commitText_of_view hpaired he
    · rwa [heq]
    · rw [heq]
      exact Readable.frame (a := a.withText d e.content) h (refreshes_changed hwired d e.content).frame

theorem addEditor (h : a.Readable) (d : Document) (column : Nat) :
    (a.addEditor d column).Readable := by
  intro id e he
  rcases view_of_addEditor he with hold | ⟨-, rfl⟩
  · exact h id e hold
  · exact (isReadable_ofDocument d column).of_eq rfl rfl

theorem opens (h : a.Readable) (hopens : Opens a path a') : a'.Readable := by
  cases hopens with
  | @reloaded d id e _ he _ =>
    refine Readable.frame ?_ (beside_requestFocus _ id).toFrame
    rcases reloadEditor_of_view (d := d) he with ⟨-, heq⟩ | ⟨-, hreloaded⟩
    · rwa [heq]
    · refine Readable.frame (h.modifyView fun e _ => ?_) hreloaded.toFrame
      exact (isReadable_loadText e d.text).of_eq rfl rfl
  | @added d b _ _ _ hopened hadded =>
    have hb : b.Readable := Readable.frame (a := a.withDocument d) h hopened.frame
    exact (hb.addEditor d _).frame hadded.frame

end Readable

theorem Happens.readable (hhappens : Happens a step a') (hwired : a.IsWired) (hpaired : a.IsPaired)
    (h : a.Readable) : a'.Readable := by
  cases hhappens with
  | refreshed hrefreshes => exact h.frame hrefreshes.frame
  | pressed he hpress =>
    rw [edit_eq]
    exact h.replace _ ((h _ _ he).pressKey hpress)
  | @committed id rest _ =>
    exact Readable.commitText (a := a.withQueue rest) h (hwired.withQueue rest)
      (hpaired.withQueue rest) id
  | @selected id rest _ =>
    exact Readable.frame (a := a.withQueue rest) h (refreshes_selected hwired rest id).frame
  | @handled _ rest _ _ _ _ hrefreshes =>
    exact Readable.frame (a := a.withQueue rest) h hrefreshes.frame
  | @chosen _ id _ _ _ _ e e' _ he hreplaced hrefreshes =>
    have hview := hpaired.replace he (staysPut_of_replaceColumns hreplaced)
    exact ((h.replace id ((h id e he).replaceColumns hreplaced)).commitText
      (hwired.modifyView id _) hview id).frame hrefreshes.frame
  | opened _ hopening =>
    cases hopening with
    | refreshed hrefreshes => exact h.frame hrefreshes.frame
    | opened hrefreshes hopens => exact (h.frame hrefreshes.frame).opens hopens
    | @replaced b _ _ _ text d hrefreshes _ hreplaced hopens =>
      have hb : b.Readable := h.frame hrefreshes.frame
      exact (Readable.frame (a := b.withText d text) hb hreplaced.frame).opens hopens
  | watched _ hspares | unwatched _ hspares =>
    intro id e he
    exact h id e (hspares.views ▸ he)

theorem IsStart.readable (h : a.IsStart) : a.Readable := by
  intro id e he
  obtain ⟨d, -, column, width, height, rfl⟩ := h.editors e (List.mem_of_getElem? he)
  exact (isReadable_ofDocument d column).of_eq rfl rfl

/-- **In every state the selections can be read.** -/
theorem Reachable.readable (h : Reachable a) : a.Readable := by
  induction h with
  | mount hnew =>
    obtain ⟨start, hstart, -, hmounted⟩ := exists_isStart hnew
    exact hstart.readable.frame hmounted.frame
  | step step hbefore htake ih =>
    exact (hbefore.happens htake).readable hbefore.keeps.1 hbefore.keeps.2 ih

/-! ## What the preview shows -/

/-- What was shown last is what is selected in the preview's view, or a space. -/
def Shows (a : App) (p : PreviewState) : Prop :=
  ∃ t, a.previewText? p.view = some t ∧ a.previewContent? = some (p.format.render t)

theorem previewText?_congr (h : a'.views[id]?.map Editor.core = a.views[id]?.map Editor.core) :
    a'.previewText? id = a.previewText? id := by
  unfold Session.previewText?
  cases he : a.views[id]? with
  | none =>
    rw [he] at h
    rw [Option.map_eq_none_iff.1 h]
  | some e =>
    rw [he] at h
    obtain ⟨e', he', hcore⟩ := Option.map_eq_some_iff.1 h
    rw [he']
    show (e'.selectedText.toOption.map _) = e.selectedText.toOption.map _
    rw [selectedText_of_core hcore]

theorem Frame.previewText?_eq (h : Frame a a') (id : ViewId) :
    a'.previewText? id = a.previewText? id :=
  previewText?_congr (h.getElem?_core id)

theorem previewContent?_congr (h : a'.outputs = a.outputs) :
    a'.previewContent? = a.previewContent? := by
  unfold previewContent?
  rw [h]

theorem Shows.of_eq (h : a.Shows p) (htext : a'.previewText? p.view = a.previewText? p.view)
    (houtputs : a'.outputs = a.outputs) : a'.Shows p := by
  obtain ⟨t, ht, hcontent⟩ := h
  exact ⟨t, htext.trans ht, (previewContent?_congr houtputs).trans hcontent⟩

theorem Readable.exists_previewText? (h : a.Readable) (id : ViewId) :
    ∃ t, a.previewText? id = some t := by
  unfold Session.previewText?
  cases he : a.views[id]? with
  | none => exact ⟨_, rfl⟩
  | some e =>
    obtain ⟨t, ht⟩ := (h id e he).exists_selectedText
    show ∃ t, (e.selectedText.toOption.map _) = some t
    rw [ht]
    exact ⟨_, rfl⟩

/-- A preview that is rendered shows what is selected. -/
theorem shows_showOutput (h : a.Readable) (p : PreviewState) :
    Shows (a.showOutput p.id p.view p.format) p := by
  obtain ⟨t, ht⟩ := h.exists_previewText? p.view
  have hshown : a.showOutput p.id p.view p.format
      = { a with outputs := a.outputs ++ [(p.id, p.format.render t)] } := by
    unfold Session.showOutput
    rw [ht]
  refine ⟨t, ((Frame.showOutput a p.id p.view p.format).previewText?_eq p.view).trans ht, ?_⟩
  rw [hshown]
  simp [previewContent?]

/-- **What follows leaves the preview alone or renders it.** -/
theorem Refreshes.outputs_eq_or_shows (h : Refreshes a a') (hreadable : a.Readable)
    (hp : a.previews = [p]) : a'.outputs = a.outputs ∨ a'.Shows p := by
  induction h with
  | beside h => exact Or.inl h.outputs
  | trans h h' ih ih' =>
    rcases ih' (hreadable.frame h.frame) (h.frame.previews.trans hp) with hsame | hshows
    · rcases ih hreadable hp with hsame' | hshows
      · exact Or.inl (hsame.trans hsame')
      · exact Or.inr (hshows.of_eq (h'.frame.previewText?_eq p.view) hsame)
    · exact Or.inr hshows
  | posted => exact Or.inl rfl
  | rendered a hmem =>
    obtain rfl := List.mem_singleton.1 (hp ▸ hmem)
    exact Or.inr (shows_showOutput hreadable _)

theorem Shows.refreshes (h : a.Shows p) (hrefreshes : Refreshes a a') (hreadable : a.Readable)
    (hp : a.previews = [p]) : a'.Shows p := by
  rcases hrefreshes.outputs_eq_or_shows hreadable hp with hsame | hshows
  · exact h.of_eq (hrefreshes.frame.previewText?_eq p.view) hsame
  · exact hshows

/-! ## Rendering -/

/-- The event concerns the preview: another selection in its view, or a change of its document. -/
inductive Concerns (a : App) (p : PreviewState) : Event → Prop
  | selected : Concerns a p (.selected p.view)
  | changed {path : Text} : a.viewDocument? p.view = some path → Concerns a p (.changed path)

theorem Frame.viewDocument?_eq (h : Frame a a') (id : ViewId) :
    a'.viewDocument? id = a.viewDocument? id := by
  have hcore := congrArg (fun c : Option Core => c.bind (·.document)) (h.getElem?_core id)
  simp only [Option.bind_map] at hcore
  exact hcore

theorem Concerns.frame {event : Event} (h : Concerns a p event) (hframe : Frame a a') :
    Concerns a' p event := by
  cases h with
  | selected => exact .selected
  | changed hpath => exact .changed ((hframe.viewDocument?_eq p.view).trans hpath)

theorem refreshPreview_of_concerns (hwired : a.IsWired) (hp : p ∈ a.previews) {event : Event}
    (h : Concerns a p event) :
    a.refreshPreview p.id event = a.showOutput p.id p.view p.format := by
  unfold Session.refreshPreview
  rw [hwired.tidy.find?_eq hp]
  cases h with
  | selected => exact if_pos (decide_eq_true rfl)
  | changed hpath => exact if_pos (decide_eq_true hpath)

/-- The preview has subscribed to what concerns it. -/
theorem exists_subscriber (hwired : a.IsWired) (hp : p ∈ a.previews) {event : Event}
    (h : Concerns a p event) :
    ∃ sub ∈ a.subscribers event.topic, sub.listener.listener = .preview p.id := by
  obtain ⟨i, j, hpair⟩ := hwired.tidy.pair p hp
  have hheld {sub : Subscription Interest} (hsub : sub ∈ p.held)
      (htopic : sub.listener.topic = event.topic) :
      ∃ sub ∈ a.subscribers event.topic, sub.listener.listener = .preview p.id :=
    ⟨sub, List.mem_filter.2 ⟨hwired.tidy.mem_of_mem_held hp hsub, decide_eq_true htopic⟩,
      (hwired.tidy.listener_of_mem_held hp hsub).1⟩
  cases h with
  | selected => exact hheld ((Session.mem_held_iff hpair).2 (Or.inr rfl)) rfl
  | changed => exact hheld ((Session.mem_held_iff hpair).2 (Or.inl rfl)) rfl

/-- **An event that concerns the preview renders it.** -/
theorem shows_emit (hwired : a.IsWired) (hreadable : a.Readable) (hp : p ∈ a.previews)
    {event : Event} (h : Concerns a p event) : Shows (Session.emit event a) p := by
  have htopic : event.topic ≠ .diagnosed := by cases h <;> simp [Event.topic]
  obtain ⟨sub, hsub, hlistener⟩ := exists_subscriber hwired hp h
  have hcall : ∃ s, Refreshes a s ∧ Refreshes
      (s.react (Session.emitNested 3) sub.listener.listener event) (Session.emit event a) := by
    refine exists_call
      (f := fun interest s => s.react (Session.emitNested 3) interest.listener event)
      Refreshes.refl Refreshes.trans (fun s' interest hs' =>
        refreshes_react (hs'.hearsFindings hwired.hears) interest.listener htopic)
      hsub fun s' hs' => ?_
    rw [hs'.frame.signal]
    exact List.any_eq_true.2 ⟨sub, (List.mem_filter.1 hsub).1, by simp⟩
  obtain ⟨s, hbefore, hafter⟩ := hcall
  have hp' : p ∈ s.previews := hbefore.frame.previews ▸ hp
  have hreact : s.react (Session.emitNested 3) sub.listener.listener event
      = s.showOutput p.id p.view p.format := by
    rw [hlistener]
    exact refreshPreview_of_concerns (hwired.frame hbefore.frame) hp' (h.frame hbefore.frame)
  rw [hreact] at hafter
  have hreadable' := hreadable.frame hbefore.frame
  have hshown := Frame.showOutput s p.id p.view p.format
  exact (shows_showOutput hreadable' p).refreshes hafter (hreadable'.frame hshown)
    (hshown.previews.trans ((hwired.frame hbefore.frame).eq_singleton hp').1)

/-! ## Steps -/

/-- The preview shows what is selected, or the news of another selection is still to be handled. -/
def KeepsUp (a : App) (p : PreviewState) : Prop :=
  .message p.view .selectionChanged ∈ a.outside.queue ∨ a.Shows p

theorem KeepsUp.of_eq (h : a.KeepsUp p) (htext : a'.previewText? p.view = a.previewText? p.view)
    (houtputs : a'.outputs = a.outputs)
    (hqueue : .message p.view .selectionChanged ∈ a.outside.queue →
      .message p.view .selectionChanged ∈ a'.outside.queue) : a'.KeepsUp p :=
  h.imp hqueue fun hshows => hshows.of_eq htext houtputs

theorem KeepsUp.refreshes (h : a.KeepsUp p) (hrefreshes : Refreshes a a') (hreadable : a.Readable)
    (hp : a.previews = [p]) : a'.KeepsUp p :=
  h.imp (fun hmem => hrefreshes.frame.queue.subset hmem)
    fun hshows => hshows.refreshes hrefreshes hreadable hp

/-- Something else than the news of the selection has been taken out of the queue. -/
theorem KeepsUp.withQueue {q : Posted} {rest : List Posted} (h : a.KeepsUp p)
    (hqueue : a.outside.queue = q :: rest) (hq : q ≠ .message p.view .selectionChanged) :
    (a.withQueue rest).KeepsUp p := by
  refine h.of_eq rfl rfl fun hmem => ?_
  rw [hqueue] at hmem
  exact (List.mem_cons.1 hmem).resolve_left fun heq => hq heq.symm

/-- The step changes what is selected in the preview's editor, and the preview does not hear of it: a
file is opened there, or a completion is put in that leaves the document as it is. -/
def Step.isSilent (step : Step) (a a' : App) : Prop :=
  ∃ p ∈ a.previews, a'.previewText? p.view ≠ a.previewText? p.view ∧
    (step.opensFiles = true ∨ (∃ choice, step = .choose choice) ∧ a'.documents = a.documents)

/-- **What opening a file leaves of a preview,** if the same is selected in the end. -/
theorem KeepsUp.opens (h : a.KeepsUp p) (hopens : Opens a path a') (hreadable : a.Readable)
    (hp : a.previews = [p]) (hsame : a'.previewText? p.view = a.previewText? p.view) :
    a'.KeepsUp p := by
  cases hopens with
  | @reloaded d id e _ he _ =>
    have hfocused := beside_requestFocus (a.reloadEditor id d) id
    rcases reloadEditor_of_view (d := d) he with ⟨-, heq⟩ | ⟨-, hreloaded⟩
    · rw [heq] at hfocused hsame ⊢
      exact h.of_eq hsame hfocused.outputs (hfocused.queue.subset ·)
    · have hbeside := hreloaded.trans hfocused
      exact h.of_eq hsame hbeside.outputs (hbeside.queue.subset ·)
  | @added d b _ _ _ hopened hadded =>
    have hdocument : (a.withDocument d).KeepsUp p := h
    have hb : b.Readable := Readable.frame (a := a.withDocument d) hreadable hopened.frame
    rcases hadded.outputs_eq_or_shows (hb.addEditor d _) (hopened.frame.previews.trans hp)
      with heq | hshows
    · refine (hdocument.refreshes hopened hreadable hp).of_eq (hsame.trans ?_) heq
        (hadded.frame.queue.subset ·)
      exact (hopened.frame.previewText?_eq p.view).symm
    · exact Or.inr hshows

theorem Opens.previews_eq (h : Opens a path a') : a'.previews = a.previews := by
  cases h with
  | @reloaded d id e _ he _ =>
    rcases reloadEditor_of_view (d := d) he with ⟨-, heq⟩ | ⟨-, hreloaded⟩
    · show (a.reloadEditor id d).previews = a.previews
      rw [heq]
    · exact hreloaded.previews
  | added _ _ hopened hadded => exact hadded.frame.previews.trans hopened.frame.previews

theorem Opening.previews_eq (h : Opening a a') : a'.previews = a.previews := by
  cases h with
  | refreshed h => exact h.frame.previews
  | opened h hopens => exact hopens.previews_eq.trans h.frame.previews
  | replaced h _ h' hopens =>
    exact (hopens.previews_eq.trans h'.frame.previews).trans h.frame.previews

theorem KeepsUp.opening (h : a.KeepsUp p) (hopening : Opening a a') (hreadable : a.Readable)
    (hp : a.previews = [p]) (hsame : a'.previewText? p.view = a.previewText? p.view) :
    a'.KeepsUp p := by
  cases hopening with
  | refreshed hrefreshes => exact h.refreshes hrefreshes hreadable hp
  | opened hrefreshes hopened =>
    exact (h.refreshes hrefreshes hreadable hp).opens hopened (hreadable.frame hrefreshes.frame)
      (hrefreshes.frame.previews.trans hp)
      (hsame.trans (hrefreshes.frame.previewText?_eq p.view).symm)
  | @replaced b c _ _ text d hrefreshes _ hreplaced hopened =>
    have hb : b.previews = [p] := hrefreshes.frame.previews.trans hp
    have htext : (b.withText d text).KeepsUp p :=
      (h.refreshes hrefreshes hreadable hp).of_eq rfl rfl fun hmem => hmem
    have hb' : b.Readable := hreadable.frame hrefreshes.frame
    have hreadable' : (b.withText d text).Readable := hb'
    refine (htext.refreshes hreplaced hreadable' hb).opens hopened
      (hreadable'.frame hreplaced.frame) (hreplaced.frame.previews.trans hb) ?_
    rw [hsame, hreplaced.frame.previewText?_eq]
    exact (hrefreshes.frame.previewText?_eq p.view).symm

/-- When an editor is replaced by one in which the same is selected, previews have the same text. -/
theorem previewText?_replace (he : a.views[id]? = some e) {view : ViewId}
    (hsame : id = view → e'.selectedText = e.selectedText) :
    (Session.modifyView a id fun _ => e').previewText? view = a.previewText? view := by
  by_cases hid : id = view
  · subst hid
    have hview : (a.views.modify id fun _ => e')[id]? = some e' := by
      rw [List.getElem?_modify_eq, he]
      rfl
    unfold Session.previewText? Session.modifyView
    rw [hview, he]
    show (e'.selectedText.toOption.map _) = e.selectedText.toOption.map _
    rw [hsame rfl]
  · refine previewText?_congr (congrArg _ ?_)
    exact List.getElem?_modify_ne _ _ hid

/-- A document may get the text of its editor, and then the application follows. -/
theorem refreshes_commitText (hwired : a.IsWired) (hpaired : a.IsPaired) (id : ViewId) :
    ∃ b, b.views = a.views ∧ b.previews = a.previews ∧ b.outputs = a.outputs ∧
      b.outside = a.outside ∧ Refreshes b (a.commitText id) := by
  cases he : a.views[id]? with
  | none =>
    rw [commitText_of_view_eq_none he]
    exact ⟨a, rfl, rfl, rfl, rfl, .refl a⟩
  | some e =>
    obtain ⟨d, -, -, ⟨-, heq⟩ | ⟨-, heq⟩⟩ := commitText_of_view hpaired he
    · rw [heq]
      exact ⟨a, rfl, rfl, rfl, rfl, .refl a⟩
    · rw [heq]
      exact ⟨a.withText d e.content, rfl, rfl, rfl, rfl, refreshes_changed hwired d e.content⟩

theorem previews_commitText (hwired : a.IsWired) (hpaired : a.IsPaired) (id : ViewId) :
    (a.commitText id).previews = a.previews := by
  obtain ⟨b, -, hpreviews, -, -, hcommitted⟩ := refreshes_commitText hwired hpaired id
  exact hcommitted.frame.previews.trans hpreviews

theorem KeepsUp.commitText (h : a.KeepsUp p) (hwired : a.IsWired) (hpaired : a.IsPaired)
    (hreadable : a.Readable) (hp : a.previews = [p]) (id : ViewId) :
    KeepsUp (a.commitText id) p := by
  obtain ⟨b, hviews, hpreviews, houtputs, houtside, hcommitted⟩ :=
    refreshes_commitText hwired hpaired id
  have hb : b.KeepsUp p := h.of_eq (previewText?_congr (by rw [hviews])) houtputs
    fun hmem => houtside ▸ hmem
  exact hb.refreshes hcommitted (fun id e he => hreadable id e (hviews ▸ he)) (hpreviews.trans hp)

/-- A document that gets a text renders the preview of its editor. -/
theorem shows_commitText (hwired : a.IsWired) (hpaired : a.IsPaired) (hreadable : a.Readable)
    (hp : p ∈ a.previews) : a.commitText p.view = a ∨ Shows (a.commitText p.view) p := by
  cases he : a.views[p.view]? with
  | none => exact Or.inl (commitText_of_view_eq_none he)
  | some e =>
    obtain ⟨d, hdocument, -, ⟨-, heq⟩ | ⟨-, heq⟩⟩ := commitText_of_view hpaired he
    · exact Or.inl heq
    · rw [heq]
      refine Or.inr (shows_emit (hwired.withText d e.content) (a := a.withText d e.content) hreadable
        hp (.changed ?_))
      exact Option.bind_eq_some_iff.2 ⟨e, he, hdocument⟩

/-- **What a completion leaves of a preview,** if the same is selected in the end or a document
changes. -/
theorem KeepsUp.chosen {row start stop : Int} {text : Text} (h : a.KeepsUp p) (hwired : a.IsWired)
    (hpaired : a.IsPaired) (hreadable : a.Readable) (hp : p ∈ a.previews)
    (he : a.views[id]? = some e) (hreplaced : e.replaceColumns row start stop text = .ok e')
    (hrefreshes : Refreshes (App.commitText (a.modifyView id fun _ => e') id) a')
    (hsame : a'.documents = a.documents → a'.previewText? p.view = a.previewText? p.view) :
    a'.KeepsUp p := by
  have hview := hpaired.replace he (staysPut_of_replaceColumns hreplaced)
  have hwired' := hwired.modifyView id fun _ => e'
  have hreadable' := hreadable.replace id ((hreadable id e he).replaceColumns hreplaced)
  have hcommitted := hreadable'.commitText hwired' hview id
  have hone := (hwired.eq_singleton hp).1
  have hone' := (previews_commitText hwired' hview id).trans hone
  by_cases hkept : (Session.modifyView a id fun _ => e').previewText? p.view
      = a.previewText? p.view
  · have hreplaced : KeepsUp (a.modifyView id fun _ => e') p := h.of_eq hkept rfl fun hmem => hmem
    exact (hreplaced.commitText hwired' hview hreadable' hone id).refreshes hrefreshes hcommitted
      hone'
  · -- the preview would miss the new selection if its document had stayed
    have hid : id = p.view := by
      by_contra hid
      exact hkept (previewText?_replace he fun heq => absurd heq hid)
    subst hid
    rcases shows_commitText hwired' hview hreadable' hp with heq | hshows
    · rw [heq] at hrefreshes
      refine absurd ?_ hkept
      exact (hrefreshes.frame.previewText?_eq p.view).symm.trans (hsame hrefreshes.frame.documents)
    · exact Or.inr (hshows.refreshes hrefreshes hcommitted hone')

/-- A preview that is opened shows what is selected. -/
theorem shows_of_watched (hreadable : a.Readable) (hspares : Spares a a')
    (houtputs : a'.outputs = (a.showOutput p.id p.view p.format).outputs) : a'.Shows p := by
  obtain ⟨t, ht, hcontent⟩ := shows_showOutput hreadable p
  rw [(Frame.showOutput a p.id p.view p.format).previewText?_eq] at ht
  exact ⟨t, (previewText?_congr (by rw [hspares.views])).trans ht,
    (previewContent?_congr houtputs).trans hcontent⟩

/-- **What one step keeps, unless it is silent:** the preview shows what is selected, or will be told
of it. -/
theorem Happens.keepsUp (hhappens : Happens a step a') (hwired : a.IsWired) (hpaired : a.IsPaired)
    (hreadable : a.Readable) (h : ∀ p ∈ a.previews, a.KeepsUp p) (hsilent : ¬ step.isSilent a a')
    (hp' : p ∈ a'.previews) : a'.KeepsUp p := by
  cases hhappens with
  | refreshed hrefreshes =>
    have hp : p ∈ a.previews := hrefreshes.frame.previews ▸ hp'
    exact (h p hp).refreshes hrefreshes hreadable (hwired.eq_singleton hp).1
  | @pressed id _ _ e e' messages he hpress =>
    rw [edit_eq] at hp' ⊢
    have hp : p ∈ a.previews := hp'
    by_cases htold : id = p.view ∧ .selectionChanged ∈ messages
    · exact Or.inl (List.mem_append_right _ (htold.1 ▸ List.mem_map_of_mem htold.2))
    · have hview : KeepsUp (a.modifyView id fun _ => e') p :=
        (h p hp).of_eq (previewText?_replace he fun hid =>
          selectedText_of_pressKey hpress fun hmem => htold ⟨hid, hmem⟩) rfl fun hmem => hmem
      exact hview.of_eq rfl rfl (List.mem_append_left _ ·)
  | @committed id rest hqueue =>
    have hrest := hwired.withQueue rest
    have hpaired' := hpaired.withQueue rest
    have hp : p ∈ a.previews := previews_commitText hrest hpaired' id ▸ hp'
    exact KeepsUp.commitText ((h p hp).withQueue hqueue (by simp)) hrest hpaired' hreadable
      (hwired.eq_singleton hp).1 id
  | @selected id rest hqueue =>
    have hrefreshes := refreshes_selected hwired rest id
    have hp : p ∈ a.previews := hrefreshes.frame.previews ▸ hp'
    by_cases hid : id = p.view
    · subst hid
      exact Or.inr (shows_emit (hwired.withQueue rest) hreadable hp .selected)
    · exact ((h p hp).withQueue hqueue (by simpa using hid)).refreshes hrefreshes
        (a := a.withQueue rest) hreadable (hwired.eq_singleton hp).1
  | @handled q rest _ hqueue _ hselection hrefreshes =>
    have hp : p ∈ a.previews := hrefreshes.frame.previews ▸ hp'
    exact ((h p hp).withQueue hqueue (hselection p.view)).refreshes hrefreshes
      (a := a.withQueue rest) hreadable (hwired.eq_singleton hp).1
  | @chosen choice id _ _ _ _ e e' _ he hreplaced hrefreshes =>
    have hview := hpaired.replace he (staysPut_of_replaceColumns hreplaced)
    have hpreviews := hrefreshes.frame.previews.trans
      (previews_commitText (hwired.modifyView id fun _ => e') hview id)
    have hp : p ∈ a.previews := hpreviews ▸ hp'
    exact (h p hp).chosen hwired hpaired hreadable hp he hreplaced hrefreshes fun hdocuments =>
      not_not.1 fun hne => hsilent ⟨p, hp, hne, Or.inr ⟨⟨choice, rfl⟩, hdocuments⟩⟩
  | opened hopens hopening =>
    have hp : p ∈ a.previews := hopening.previews_eq ▸ hp'
    exact (h p hp).opening hopening hreadable (hwired.eq_singleton hp).1
      (not_not.1 fun hne => hsilent ⟨p, hp, hne, Or.inl hopens⟩)
  | watched _ hspares hpreviews houtputs =>
    obtain rfl := List.mem_singleton.1 (hpreviews ▸ hp')
    exact Or.inr (shows_of_watched hreadable hspares houtputs)
  | unwatched _ _ hpreviews =>
    rw [hpreviews] at hp'
    exact absurd hp' List.not_mem_nil

/-- **A step that renders a preview,** and does not open a file then, lets it show what is selected.
-/
theorem Happens.shows_of_outputs_ne (hhappens : Happens a step a') (hwired : a.IsWired)
    (hpaired : a.IsPaired) (hreadable : a.Readable) (hopens : step.opensFiles = false)
    (hrendered : a'.outputs ≠ a.outputs) (hp' : p ∈ a'.previews) : a'.Shows p := by
  have hrefreshed {b : App} (hrefreshes : Refreshes b a') (hb : b.Readable)
      (hpreviews : b.previews = a.previews) (houtputs : b.outputs = a.outputs) : a'.Shows p := by
    have hp : p ∈ a.previews := (hrefreshes.frame.previews.trans hpreviews) ▸ hp'
    refine (hrefreshes.outputs_eq_or_shows hb
      (hpreviews.trans (hwired.eq_singleton hp).1)).resolve_left fun heq => ?_
    exact hrendered (heq.trans houtputs)
  cases hhappens with
  | refreshed hrefreshes => exact hrefreshed hrefreshes hreadable rfl rfl
  | pressed _ _ =>
    rw [edit_eq] at hrendered
    exact absurd rfl hrendered
  | @committed id rest _ =>
    obtain ⟨b, hviews, hpreviews, houtputs, -, hcommitted⟩ := refreshes_commitText
      (hwired.withQueue rest) (hpaired.withQueue rest) id
    exact hrefreshed hcommitted (fun id e he => hreadable id e (hviews ▸ he)) hpreviews houtputs
  | @selected id rest _ =>
    exact hrefreshed (refreshes_selected hwired rest id) hreadable rfl rfl
  | @handled _ rest _ _ _ _ hrefreshes =>
    exact hrefreshed (b := a.withQueue rest) hrefreshes hreadable rfl rfl
  | @chosen _ id _ _ _ _ e e' _ he hreplaced hrefreshes =>
    have hreadable' := hreadable.replace id ((hreadable id e he).replaceColumns hreplaced)
    obtain ⟨b, hviews, hpreviews, houtputs, -, hcommitted⟩ := refreshes_commitText
      (hwired.modifyView id fun _ => e')
      (hpaired.replace he (staysPut_of_replaceColumns hreplaced)) id
    exact hrefreshed (hcommitted.trans hrefreshes)
      (fun id e he => hreadable' id e (hviews ▸ he)) hpreviews houtputs
  | opened hopens' =>
    rw [hopens] at hopens'
    exact absurd hopens' Bool.false_ne_true
  | watched _ hspares hpreviews houtputs =>
    obtain rfl := List.mem_singleton.1 (hpreviews ▸ hp')
    exact shows_of_watched hreadable hspares houtputs
  | unwatched _ _ hpreviews =>
    rw [hpreviews] at hp'
    exact absurd hp' List.not_mem_nil

/-! ## Runs -/

/-- The states in which the preview has not been left behind: no step was silent, or it has been
rendered since. -/
inductive Attended : App → Prop
  | mount {disk : Disk} {paths : List Text} {referenceName : Text} {width height : Nat} {a : App} :
    App.new disk paths referenceName width height = .ok a → Attended a.mount
  | step {a a' : App} {step : Step} :
    Attended a → step.take a = .ok a' → ¬ step.isSilent a a' → Attended a'
  | rendered {a a' : App} {step : Step} :
    Reachable a → step.take a = .ok a' → step.opensFiles = false → a'.outputs ≠ a.outputs →
    Attended a'

theorem Attended.reachable (h : Attended a) : Reachable a := by
  induction h with
  | mount hnew => exact .mount hnew
  | step _ htake _ ih => exact ih.step _ htake
  | rendered hbefore htake _ _ => exact hbefore.step _ htake

theorem Attended.keepsUp (h : Attended a) (hp : p ∈ a.previews) : a.KeepsUp p := by
  induction h generalizing p with
  | mount hnew =>
    obtain ⟨start, hstart, -, hmounted⟩ := exists_isStart hnew
    rw [hmounted.frame.previews, hstart.previews] at hp
    exact absurd hp List.not_mem_nil
  | step hbefore htake hsilent ih =>
    have hreachable := hbefore.reachable
    exact (hreachable.happens htake).keepsUp hreachable.keeps.1 hreachable.keeps.2
      hreachable.readable (fun q hq => ih hq) hsilent hp
  | rendered hbefore htake hopens hrendered =>
    exact Or.inr ((hbefore.happens htake).shows_of_outputs_ne hbefore.keeps.1 hbefore.keeps.2
      hbefore.readable hopens hrendered hp)

/-- Nothing but opening a file or choosing a completion is silent. -/
theorem Attended.run {steps : List Step} (h : Attended a)
    (hloud : ∀ step ∈ steps, step.opensFiles = false ∧ ∀ choice, step ≠ .choose choice)
    (hrun : run steps a = .ok a') : Attended a' := by
  induction steps generalizing a with
  | nil =>
    obtain rfl := Except.ok.inj hrun
    exact h
  | cons step steps ih =>
    obtain ⟨next, htake, hrest⟩ := exists_of_run_cons hrun
    obtain ⟨hopens, hchoose⟩ := hloud step List.mem_cons_self
    refine ih (h.step htake ?_) (fun later hlater => hloud later (List.mem_cons_of_mem _ hlater))
      hrest
    rintro ⟨p, -, -, hopens' | ⟨⟨choice, heq⟩, -⟩⟩
    · rw [hopens] at hopens'
      exact Bool.false_ne_true hopens'
    · exact hchoose choice heq

/--
**The preview shows what is selected.** As long as no step has left it behind, the panel shows the
selected text of the preview's editor, or a space if there is none, whenever the news of the
selection has been handled; and what is selected can be read. A preview that has been left behind
shows it again as soon as it is rendered.
-/
theorem preview_shows_selection (h : Attended a) (hp : p ∈ a.previews)
    (hheard : .message p.view .selectionChanged ∉ a.outside.queue)
    (he : a.views[p.view]? = some e) :
    ∃ t, e.selectedText = .ok t ∧
      a.previewContent? = some (.rich (Preview.panel (if t.isEmpty then " " else t))) := by
  obtain ⟨t, ht⟩ := (h.reachable.readable p.view e he).exists_selectedText
  obtain ⟨shown, hshown, hcontent⟩ := (h.keepsUp hp).resolve_left hheard
  refine ⟨t, ht, ?_⟩
  have htext : a.previewText? p.view = some (if t.isEmpty then (" " : Text) else t) := by
    unfold Session.previewText?
    rw [he]
    show e.selectedText.toOption.map _ = _
    rw [ht]
    rfl
  rw [htext] at hshown
  rw [hcontent, (h.reachable.keeps.1.eq_singleton hp).2.2, ← Option.some.inj hshown]
  rfl

/-- The application with one of the translations open. -/
def openedTranslation : Except FileError App :=
  App.new translations ["ja_jp.json"] "en_us.json" 40 6

/-- All of the text is selected, and previewed. -/
def previewAll : List Step :=
  [.press 0 "ctrl+a" none] ++ List.replicate 4 .handleFirst ++ [.togglePreview]

/-- A language file is made over the open one, and everything is handled. -/
def overwriteOpen : List Step :=
  [.askForTarget, .submit "ja_jp.json", .promptKey "y"] ++ List.replicate 6 .handleFirst

/-- What there is to know of a preview of the first editor: what is still to be handled, and what is
selected. -/
def previewed (a : App) : List Posted × List ViewId × Option Text :=
  (a.outside.queue, a.previews.map (·.view), a.views[0]?.bind (·.selectedText.toOption))

theorem exists_of_previewed {t : Text} (h : Reachable a) (heq : a.previewed = ([], [0], some t)) :
    a.outside.queue = [] ∧ ∃ p e, a.previews = [p] ∧ p.view = 0 ∧ a.views[0]? = some e ∧
      e.selectedText = .ok t := by
  obtain ⟨hqueue, heq⟩ := Prod.mk.inj heq
  obtain ⟨hviews, hselected⟩ := Prod.mk.inj heq
  obtain ⟨p, hp, hview⟩ := List.map_eq_singleton_iff.1 hviews
  obtain ⟨e, he, ht⟩ := Option.bind_eq_some_iff.1 hselected
  obtain ⟨t', ht'⟩ := (h.readable 0 e he).exists_selectedText
  rw [ht'] at ht
  exact ⟨hqueue, p, e, hp, hview, he, ht'.trans (congrArg _ (Option.some.inj ht))⟩

theorem preview_shows_selection_of_all : ∃ (a : App) (p : PreviewState) (e : Editor),
    Attended a ∧ a.outside.queue = [] ∧ a.previews = [p] ∧ a.views[p.view]? = some e ∧
      e.selectedText = .ok (Text.ofString "\x7b\"a\": \"A\"\x7d") ∧
      a.previewContent? =
        some (.rich (Preview.panel (Text.ofString "\x7b\"a\": \"A\"\x7d"))) := by
  obtain ⟨new, hnew, hrun⟩ := exists_eq_ok (r := openedTranslation) (f := fun new =>
    (run previewAll new.mount).toOption.map previewed)
    (y := some ([], [0], some (Text.ofString "\x7b\"a\": \"A\"\x7d"))) (by decide +kernel)
  obtain ⟨a, ha, heq⟩ := exists_eq_ok hrun
  have hattended : Attended a :=
    (Attended.mount hnew).run (by simp [previewAll, Step.opensFiles]) ha
  obtain ⟨hqueue, p, e, hp, hview, he, hselected⟩ := exists_of_previewed hattended.reachable heq
  rw [← hview] at he
  obtain ⟨t, ht, hcontent⟩ := preview_shows_selection hattended (hp ▸ List.mem_singleton_self p)
    (by simp [hqueue]) he
  obtain rfl := Except.ok.inj (ht.symm.trans hselected)
  exact ⟨a, p, e, hattended, hqueue, hp, he, hselected, hcontent⟩

/-- **A preview is left behind when its file is overwritten.** Nothing is selected any more, and it
shows what was. -/
theorem preview_misses_overwriting : ∃ (a : App) (p : PreviewState) (e : Editor),
    Reachable a ∧ a.outside.queue = [] ∧ a.previews = [p] ∧ a.views[p.view]? = some e ∧
      e.selectedText = .ok [] ∧ a.previewContent? ≠ some (.rich (Preview.panel " ")) := by
  obtain ⟨new, hnew, hrun⟩ := exists_eq_ok (r := openedTranslation) (f := fun new =>
    (run (previewAll ++ overwriteOpen) new.mount).toOption.map previewed)
    (y := some ([], [0], some [])) (by decide +kernel)
  obtain ⟨a, ha, hpreviewed⟩ := exists_eq_ok hrun
  have hcontent := eq_of_toOption_map hnew (f := fun new =>
    (run (previewAll ++ overwriteOpen) new.mount).toOption.map fun a =>
      decide (a.previewContent? = some (.rich (Preview.panel " ")))) (y := some false)
    (by decide +kernel)
  have hshown := eq_of_toOption_map ha hcontent
  have hreachable := (Reachable.mount hnew).run ha
  obtain ⟨hqueue, p, e, hp, hview, he, hselected⟩ := exists_of_previewed hreachable hpreviewed
  exact ⟨a, p, e, hreachable, hqueue, hp, hview ▸ he, hselected, of_decide_eq_false hshown⟩

end App

end LangFile
