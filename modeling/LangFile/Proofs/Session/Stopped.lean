import LangFile.Proofs.Session.PreviewHistory

/-!
# Stopped sessions

Only the surroundings listen to a session that has stopped. Whatever they do when they hear of an
event, its findings, the decorations of its views and the outputs of its previews stay as they are.
Views may be added and previews opened meanwhile, and these previews are called.

1. What is unaffected (`Unaffected`), and what is kept meanwhile (`StaysStopped`).
2. All that is done keeps it, and so does every delivery (`StaysStopped.emitNested`).
-/

namespace LangFile

/-- It is outside, or a preview with a number from `n` on. -/
def Listener.IsAfter (n : PreviewId) : Listener → Prop
  | .outside => True
  | .preview id => n ≤ id
  | _ => False

namespace Session

/-- How events are delivered: by themselves, or in the course of other deliveries. -/
def IsDelivery (emit : Delivery PlainView Actors) : Prop :=
  emit = Session.emit ∨ ∃ depth, emit = emitNested depth

/-- The findings are the same, as are the decorations of all views and the outputs of all previews
that there were. -/
structure Unaffected (s s' : Session PlainView Actors) : Prop where
  diagnostics : s'.diagnostics = s.diagnostics
  decorations : s.views.map (·.decorations) <+: s'.views.map (·.decorations)
  outputs : ∀ id < s.nextPreview, outputsOf s'.outputs id = outputsOf s.outputs id

/-- Nothing is affected, and only the surroundings and new previews listen. The session has been
started and will not be started again. -/
structure StaysStopped (s₀ s : Session PlainView Actors) : Prop extends Unaffected s₀ s where
  next_le : s₀.nextPreview ≤ s.nextPreview
  started : s.outside.started = true
  listeners : ∀ sub ∈ s.signal.subscriptions, sub.listener.listener.IsAfter s₀.nextPreview

theorem map_decorations_modify (views : List PlainView) (id : ViewId) {f : PlainView → PlainView}
    (hf : ∀ v, (f v).decorations = v.decorations) :
    (views.modify id f).map (·.decorations) = views.map (·.decorations) := by
  refine List.ext_getElem? fun i => ?_
  simp only [List.getElem?_map, List.getElem?_modify]
  cases views[i]? with
  | none => rfl
  | some v =>
    by_cases hi : id = i
    · simp [hi, hf]
    · simp [hi]

theorem outputsOf_append_of_ne (outputs : List (PreviewId × PreviewOutput)) {id other : PreviewId}
    (hne : id ≠ other) (output : PreviewOutput) :
    outputsOf (outputs ++ [(id, output)]) other = outputsOf outputs other := by
  simp [outputsOf, hne]

namespace StaysStopped

variable {s₀ s s' : Session PlainView Actors}

theorem refl (hlisteners : ∀ sub ∈ s.signal.subscriptions, sub.listener.listener = .outside)
    (hstarted : s.outside.started = true) : StaysStopped s s where
  diagnostics := rfl
  decorations := List.prefix_refl _
  outputs _ _ := rfl
  next_le := Nat.le_refl _
  started := hstarted
  listeners sub hsub := by
    rw [hlisteners sub hsub]
    exact trivial

/-- One step further. -/
theorem step (hr : StaysStopped s₀ s) (hdiagnostics : s'.diagnostics = s.diagnostics)
    (hdecorations : s.views.map (·.decorations) <+: s'.views.map (·.decorations))
    (houtputs : ∀ id < s₀.nextPreview, outputsOf s'.outputs id = outputsOf s.outputs id)
    (hnext : s.nextPreview ≤ s'.nextPreview)
    (hstarted : s'.outside.started = s.outside.started)
    (hlisteners : ∀ sub ∈ s'.signal.subscriptions,
      sub ∈ s.signal.subscriptions ∨ sub.listener.listener.IsAfter s₀.nextPreview) :
    StaysStopped s₀ s' where
  diagnostics := hdiagnostics.trans hr.diagnostics
  decorations := hr.decorations.trans hdecorations
  outputs id hid := (houtputs id hid).trans (hr.outputs id hid)
  next_le := Nat.le_trans hr.next_le hnext
  started := hstarted.trans hr.started
  listeners sub hsub := (hlisteners sub hsub).elim (hr.listeners sub) id

/-- What is neither shown nor listens. -/
theorem aside (hr : StaysStopped s₀ s) (hdiagnostics : s'.diagnostics = s.diagnostics)
    (hdecorations : s.views.map (·.decorations) <+: s'.views.map (·.decorations))
    (houtputs : s'.outputs = s.outputs) (hnext : s'.nextPreview = s.nextPreview)
    (hstarted : s'.outside.started = s.outside.started)
    (hsignal : s'.signal = s.signal) : StaysStopped s₀ s' := by
  refine hr.step hdiagnostics hdecorations (fun id _ => by rw [houtputs]) (Nat.le_of_eq hnext.symm)
    hstarted ?_
  rw [hsignal]
  exact fun _ hsub => Or.inl hsub

/-- Subscriptions end. -/
theorem unsubscribeAll (hr : StaysStopped s₀ s) (ids : List Nat) :
    StaysStopped s₀ (s.unsubscribeAll ids) := by
  refine hr.step rfl (List.prefix_refl _) (fun _ _ => rfl) (Nat.le_refl _) rfl
    fun sub hsub => Or.inl ?_
  have hmem : sub ∈ (ids.foldl Signal.unsubscribe s.signal).subscriptions := hsub
  rw [subscriptions_foldl_unsubscribe] at hmem
  exact (List.mem_filter.1 hmem).1

theorem noteAll (hr : StaysStopped s₀ s) (xs : List (Happening Event Interest Mark)) :
    StaysStopped s₀ (s.noteAll xs) := by
  rw [noteAll_eq]
  exact hr.aside rfl (List.prefix_refl _) rfl rfl rfl rfl

theorem openPreview (hr : StaysStopped s₀ s) (format : PreviewFormat) :
    StaysStopped s₀ (s.openPreviewNoted format) := by
  cases hactive : s.active with
  | none => rwa [openPreviewNoted_of_none hactive]
  | some view =>
    rw [openPreviewNoted_of_some hactive, openPreview_eq s format hactive]
    refine StaysStopped.noteAll ?_ _
    refine hr.step rfl (List.prefix_refl _) (fun id hid => ?_) (Nat.le_succ _) rfl
      fun sub hsub => ?_
    · -- the number of the new preview is above all that are kept
      exact outputsOf_append_of_ne _ (Nat.ne_of_gt (Nat.lt_of_lt_of_le hid hr.next_le)) _
    · simp only [Signal.subscribe, List.append_assoc, List.mem_append, List.mem_singleton] at hsub
      rcases hsub with hold | rfl | rfl
      · exact Or.inl hold
      · exact Or.inr hr.next_le
      · exact Or.inr hr.next_le

theorem closePreview (hr : StaysStopped s₀ s) (id : PreviewId) :
    StaysStopped s₀ (s.closePreviewNoted id) := by
  cases hfind : s.previews.find? fun p => p.id = id with
  | none => rwa [closePreviewNoted_of_none hfind]
  | some p =>
    rw [closePreviewNoted_of_some hfind]
    refine StaysStopped.noteAll ?_ _
    exact (hr.unsubscribeAll p.subscriptions).aside rfl (List.prefix_refl _) rfl rfl rfl rfl

theorem isSteady (s₀ : Session PlainView Actors) : IsSteady (StaysStopped s₀) where
  aside _ _ _ _ _ _ _ hr := hr.aside rfl (List.prefix_refl _) rfl rfl rfl rfl
  addView v hr := by
    refine hr.aside rfl ?_ rfl rfl rfl rfl
    rw [List.map_append]
    exact List.prefix_append _ _
  modifyView id f hf hr := by
    refine hr.aside rfl ⟨[], ?_⟩ rfl rfl rfl rfl
    rw [List.append_nil]
    exact (map_decorations_modify _ id hf).symm
  listen topic hr := by
    refine StaysStopped.noteAll ?_ _
    refine hr.step rfl (List.prefix_refl _) (fun _ _ => rfl) (Nat.le_refl _) rfl fun sub hsub => ?_
    refine (List.mem_append.1 hsub).imp_right fun hnew => ?_
    rw [List.mem_singleton.1 hnew]
    exact trivial
  ignore id hr := by
    unfold ignoreNoted
    split
    · exact (hr.unsubscribeAll [id]).noteAll _
    · exact hr
  openPreview format hr := hr.openPreview format
  closePreview id hr := hr.closePreview id
  start _ hr := by
    unfold startNoted
    rwa [if_pos hr.started]
  stop hr := by
    unfold stopNoted
    rw [stop_eq]
    refine StaysStopped.noteAll ?_ _
    exact (hr.unsubscribeAll _).aside rfl (List.prefix_refl _) rfl rfl rfl rfl

/-- A preview that is opened later shows something. -/
theorem refreshPreview (hr : StaysStopped s₀ s) {id : PreviewId} (hid : s₀.nextPreview ≤ id)
    (e : Event) : StaysStopped s₀ (s.refreshPreview id e) := by
  cases hfind : s.previews.find? fun p => p.id = id with
  | none =>
    have hsame : s.refreshPreview id e = s := by
      unfold Session.refreshPreview
      rw [hfind]
    rwa [hsame]
  | some p =>
    rw [refreshPreview_eq hfind e]
    refine hr.step rfl (List.prefix_refl _) (fun other hother => ?_) (Nat.le_refl _)
      rfl fun _ hsub => Or.inl hsub
    have hne : id ≠ other := Nat.ne_of_gt (Nat.lt_of_lt_of_le hother hid)
    dsimp only
    split
    · exact outputsOf_append_of_ne _ hne _
    · rw [List.append_nil]

theorem react {emit : Delivery PlainView Actors}
    (hemit : ∀ e s, StaysStopped s₀ s → StaysStopped s₀ (emit e s))
    (hr : StaysStopped s₀ s) {l : Listener} (hl : l.IsAfter s₀.nextPreview) (e : Event) :
    StaysStopped s₀ (s.react emit l e) := by
  cases l with
  | outside => exact (isSteady s₀).hear hemit e hr
  | preview id => exact hr.refreshPreview hl e
  | validation | decoration | scrolling => exact hl.elim

/-- **No delivery affects anything,** by induction on the nesting: at every depth those who are
called are the surroundings and new previews. -/
theorem emitNested (depth : Nat) (e : Event) (hr : StaysStopped s₀ s) :
    StaysStopped s₀ (Session.emitNested depth e s) := by
  induction depth generalizing e s with
  | zero => exact hr.aside rfl (List.prefix_refl _) rfl rfl rfl rfl
  | succ depth ih =>
    refine List.foldlRecOn (s.subscribers e.topic) _ hr fun now hnow sub hsub => ?_
    split
    · exact hnow.react (fun e _ hs => ih e hs) (hr.listeners sub (List.mem_filter.1 hsub).1) e
    · exact hnow

theorem delivery {emit : Delivery PlainView Actors} (hemit : IsDelivery emit) (e : Event)
    (hr : StaysStopped s₀ s) : StaysStopped s₀ (emit e s) := by
  rcases hemit with rfl | ⟨depth, rfl⟩
  · exact hr.emitNested s.outside.room e
  · exact hr.emitNested depth e

end StaysStopped

/-- **When only the surroundings listen, nothing is affected,** whatever happens or is done. -/
theorem unaffected_of_outside {s : Session PlainView Actors}
    (hlisteners : ∀ sub ∈ s.signal.subscriptions, sub.listener.listener = .outside)
    (hstarted : s.outside.started = true) {emit : Delivery PlainView Actors}
    (hemit : IsDelivery emit) :
    (∀ e, Unaffected s (emit e s)) ∧ ∀ acts, Unaffected s (course emit acts s) := by
  have hstopped := StaysStopped.refl hlisteners hstarted
  have hdelivery (e : Event) (now : Session PlainView Actors) (hnow : StaysStopped s now) :
      StaysStopped s (emit e now) := hnow.delivery hemit e
  exact ⟨fun e => (hdelivery e s hstopped).toUnaffected, fun acts =>
    ((StaysStopped.isSteady s).course hdelivery acts hstopped).toUnaffected⟩

end Session

end LangFile
