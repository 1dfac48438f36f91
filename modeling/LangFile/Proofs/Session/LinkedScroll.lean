import LangFile.Proofs.Session.Findings
import LangFile.Proofs.Session.Observation

/-!
# Rounds of linked scrolling

A round scrolls the visible views of other columns to the line of the active view. What the views
report in the meantime begins no other round, until a callback ends the round that was put off.

1. What scrolls views, and to which lines (`Reveals`).
2. An event that begins no round scrolls nothing (`isStill_emit`).
3. One that does scrolls each view of another column as often as it is visible
   (`reveals_emit_scrolled`).
4. In every state that a session reaches, a round is in progress exactly while one callback is
   pending (`linkedScroll_guarded`).
-/

namespace LangFile.Session

variable {s s' s'' s₀ : ObservedSession} {lines lines' : ViewId → List Int}
  {emit : Delivery PlainView Recorder}

/-! ## Scrolled views -/

/-- Every view has been scrolled to its lines, one after another. All else that linked scrolling
depends on is the same. -/
structure Reveals (lines : ViewId → List Int) (s s' : ObservedSession) : Prop where
  scroll : s'.scroll = s.scroll
  pending : s'.pending = s.pending
  deferred : s'.deferred = s.deferred
  active : s'.active = s.active
  visible : s'.visible = s.visible
  signal : s'.signal = s.signal
  viewColumn (id : ViewId) : s'.viewColumn id = s.viewColumn id
  revealed (id : ViewId) :
    s'.views[id]?.map (·.revealed) = s.views[id]?.map fun v => v.revealed ++ lines id

/-- No view has been scrolled. -/
abbrev Rests : ObservedSession → ObservedSession → Prop := Reveals fun _ => []

theorem Reveals.trans (h : Reveals lines s s') (h' : Reveals lines' s' s'') :
    Reveals (fun id => lines id ++ lines' id) s s'' where
  scroll := h'.scroll.trans h.scroll
  pending := h'.pending.trans h.pending
  deferred := h'.deferred.trans h.deferred
  active := h'.active.trans h.active
  visible := h'.visible.trans h.visible
  signal := h'.signal.trans h.signal
  viewColumn id := (h'.viewColumn id).trans (h.viewColumn id)
  revealed id := by
    have hfirst := congrArg (Option.map (· ++ lines' id)) (h.revealed id)
    rw [Option.map_map, Option.map_map] at hfirst
    refine (h'.revealed id).trans (hfirst.trans ?_)
    exact congrFun (congrArg _ (funext fun v => List.append_assoc _ _ _)) _

namespace Rests

/-- The views are the same. -/
theorem of_eq (hscroll : s'.scroll = s.scroll) (hpending : s'.pending = s.pending)
    (hdeferred : s'.deferred = s.deferred) (hactive : s'.active = s.active)
    (hvisible : s'.visible = s.visible) (hsignal : s'.signal = s.signal)
    (hviews : s'.views = s.views) : Rests s s' := by
  refine ⟨hscroll, hpending, hdeferred, hactive, hvisible, hsignal, fun id => ?_, fun id => ?_⟩
  · unfold viewColumn
    rw [hviews]
  · simp only [hviews, List.append_nil]

theorem refl (s : ObservedSession) : Rests s s := of_eq rfl rfl rfl rfl rfl rfl rfl

theorem trans_reveals (h : Rests s s') (h' : Reveals lines s' s'') : Reveals lines s s'' :=
  Reveals.trans h h'

theorem trans (h : Rests s s') (h' : Rests s' s'') : Rests s s'' := h.trans_reveals h'

end Rests

theorem Reveals.trans_rests (h : Reveals lines s s') (h' : Rests s' s'') : Reveals lines s s'' := by
  simpa only [List.append_nil] using h.trans h'

/-- One view is changed. -/
theorem Reveals.modifyView {id : ViewId} {new : List Int} {f : PlainView → PlainView}
    (hf : ∀ v, s.views[id]? = some v →
      (f v).column = v.column ∧ (f v).revealed = v.revealed ++ new) :
    Reveals (fun id' => if id' = id then new else []) s (s.modifyView id f) := by
  have hfound (id' : ViewId) : (s.modifyView id f).views[id']?
      = if id' = id then s.views[id]?.map f else s.views[id']? := by
    show (s.views.modify id f)[id']? = _
    rw [List.getElem?_modify]
    split
    · next heq => rw [if_pos heq.symm, heq]; rfl
    · next hne => rw [if_neg (Ne.symm hne)]; simp
  refine ⟨rfl, rfl, rfl, rfl, rfl, rfl, fun id' => ?_, fun id' => ?_⟩
  · unfold Session.viewColumn
    rw [hfound]
    by_cases hid : id' = id
    · subst hid
      cases hv : s.views[id']? with
      | none => simp
      | some v =>
        rw [if_pos rfl]
        exact congrArg some (hf v hv).1
    · rw [if_neg hid]
  · rw [hfound]
    by_cases hid : id' = id
    · subst hid
      cases hv : s.views[id']? with
      | none => simp
      | some v => simpa using (hf v hv).2
    · simp [hid]

theorem Rests.modifyView {id : ViewId} {f : PlainView → PlainView}
    (hf : ∀ v, (f v).column = v.column ∧ (f v).revealed = v.revealed) :
    Rests s (s.modifyView id f) := by
  have h : Reveals (fun id' => if id' = id then [] else []) s (s.modifyView id f) :=
    Reveals.modifyView fun v _ => ⟨(hf v).1, by rw [(hf v).2, List.append_nil]⟩
  simpa only [ite_self] using h

/-! ## Events that scroll nothing -/

theorem rests_decorateView (s : ObservedSession) (id : ViewId) : Rests s (s.decorateView id) := by
  unfold decorateView
  split
  · exact Rests.refl s
  · next d _ =>
    have hhandles : Rests s { s with handles := (decorate d.text s.handles).2 } :=
      Rests.of_eq rfl rfl rfl rfl rfl rfl rfl
    exact hhandles.trans (Rests.modifyView fun _ => ⟨rfl, rfl⟩)

theorem rests_decorateVisible (s : ObservedSession) : Rests s s.decorateVisible :=
  foldl_induction Rests.refl Rests.trans s.visible s fun s' id _ _ => rests_decorateView s' id

/-- A round begins when the active view reports that it has been scrolled and none is in progress. -/
def Accepts (s : ObservedSession) (source : ViewId) : Prop :=
  s.scroll.enabled = true ∧ s.scroll.inProgress = false ∧ s.active = some source

/-- The event begins a round. -/
def Begins (s : ObservedSession) : Event → Prop
  | .scrolled source _ => s.Accepts source
  | _ => False

theorem not_accepts_of_inProgress (h : s.scroll.inProgress = true) (source : ViewId) :
    ¬ s.Accepts source := by
  intro haccepts
  rw [haccepts.2.1] at h
  exact Bool.noConfusion h

theorem Reveals.accepts_iff (h : Reveals lines s s') (source : ViewId) :
    s'.Accepts source ↔ s.Accepts source := by
  unfold Accepts
  rw [h.scroll, h.active]

theorem Reveals.begins_iff (h : Reveals lines s s') (e : Event) : s'.Begins e ↔ s.Begins e := by
  cases e with
  | scrolled source line => exact h.accepts_iff source
  | _ => exact Iff.rfl

/-- Events that begin no round scroll nothing. -/
def IsStill (emit : Delivery PlainView Recorder) : Prop :=
  ∀ (e : Event) (s : ObservedSession), ¬ s.Begins e → Rests s (emit e s)

theorem IsStill.validate (hstill : IsStill emit) (s : ObservedSession) (p : Text) :
    Rests s (s.validate emit p) := by
  have hposted (s : ObservedSession) (p : Text) (fs : List Finding) :
      Rests s (emit (.diagnosed p) (s.withFindings p fs)) := by
    have hset : Rests s (s.withFindings p fs) := Rests.of_eq rfl rfl rfl rfl rfl rfl rfl
    exact hset.trans (hstill (.diagnosed p) _ id)
  cases hc : s.comparison? p with
  | none =>
    rw [validate_of_comparison?_eq_none hc]
    exact Rests.refl s
  | some c =>
    rw [validate_of_comparison? hc]
    exact (hposted s p c.candidate).trans (hposted _ c.referencePath c.reference)

theorem IsStill.edit (hstill : IsStill emit) (edit : ObserverEdit) (s : ObservedSession) :
    Rests s (edit.perform emit s) := by
  cases htarget : edit.target? s with
  | none =>
    rw [edit.perform_of_target?_eq_none htarget]
    exact Rests.refl s
  | some p =>
    obtain ⟨e, documents, hcauses⟩ := edit.exists_causes htarget
    rw [hcauses.perform_eq emit]
    have hset : Rests s { s with documents } := Rests.of_eq rfl rfl rfl rfl rfl rfl rfl
    refine hset.trans (hstill e _ ?_)
    rcases hcauses.event with rfl | rfl <;> exact id

theorem IsStill.hear (hstill : IsStill emit) (e : Event) (s : ObservedSession) :
    Rests s (Host.hear emit e s) := by
  obtain ⟨outside, edits, heq, -, -⟩ := Recorder.hear_eq emit e s
  rw [heq]
  have htold : Rests s { s with outside } := Rests.of_eq rfl rfl rfl rfl rfl rfl rfl
  exact htold.trans (foldl_induction Rests.refl Rests.trans edits _ fun s' edit _ _ =>
    hstill.edit edit s')

theorem rests_refreshPreview (id : PreviewId) (e : Event) (s : ObservedSession) :
    Rests s (s.refreshPreview id e) := by
  have hshown (view : ViewId) (format : PreviewFormat) : Rests s (s.showOutput id view format) := by
    unfold showOutput
    split <;> exact Rests.of_eq rfl rfl rfl rfl rfl rfl rfl
  unfold refreshPreview
  split
  · exact Rests.refl s
  · exact iteInduction (fun _ => hshown _ _) fun _ => Rests.refl s

/-- Of what listens, only linked scrolling scrolls, and only when a round begins. -/
theorem IsStill.react (hstill : IsStill emit) {l : Listener} {e : Event}
    (h : l ≠ .scrolling ∨ ¬ s.Begins e) :
    Rests s (s.react emit l e) := by
  cases l with
  | validation =>
    cases e with
    | opened p => exact hstill.validate s p
    | changed p => exact (hstill.validate s p).trans (rests_decorateVisible _)
    | _ => exact Rests.refl s
  | decoration => exact rests_decorateVisible s
  | scrolling =>
    cases e with
    | scrolled source line =>
      have hnot : ¬ s.Accepts source := h.resolve_left fun hl => hl rfl
      show Rests s (s.scrollLinked emit source line)
      unfold scrollLinked
      refine iteInduction (fun _ => Rests.refl s) fun hbegins => absurd ?_ hnot
      simpa [Accepts, and_assoc] using hbegins
    | _ => exact Rests.refl s
  | preview id => exact rests_refreshPreview id e s
  | outside => exact hstill.hear e s

theorem isStill_emitNested (depth : Nat) : IsStill (emitNested depth) := by
  induction depth with
  | zero => exact fun _ _ _ => Rests.of_eq rfl rfl rfl rfl rfl rfl rfl
  | succ depth ih =>
    intro e s h
    refine deliver_induction Rests.refl Rests.trans fun s' interest hs' => ih.react (Or.inr ?_)
    rwa [hs'.begins_iff]

theorem isStill_emit : IsStill Session.emit := fun e s h =>
  isStill_emitNested (Host.nesting PlainView s.outside) e s h

/-! ## A round -/

/-- The session in the middle of a round, whose end has been put off. -/
def inRound (s : ObservedSession) : ObservedSession :=
  { s with
    scroll := { s.scroll with inProgress := true }
    pending := s.pending + 1 }

/-- The lines that a round scrolls a view to: one for each time that it is among `ids`, if it stands
in another column than the source. -/
def mirrored (s : ObservedSession) (source : ViewId) (line : Int) (ids : List ViewId)
    (id : ViewId) : List Int :=
  if id ≠ source ∧ s.viewColumn id ≠ s.viewColumn source then List.replicate (ids.count id) line
  else []

theorem mirrored_of_nodup {ids : List ViewId} (h : ids.Nodup) (source : ViewId) (line : Int)
    (id : ViewId) : s.mirrored source line ids id
      = if id ∈ ids ∧ id ≠ source ∧ s.viewColumn id ≠ s.viewColumn source then [line] else [] := by
  unfold mirrored
  rw [h.count]
  by_cases hid : id ∈ ids <;> simp [hid]

theorem Reveals.mirrored_eq (h : Reveals lines s s') : s'.mirrored = s.mirrored := by
  funext source line ids id
  unfold mirrored
  rw [h.viewColumn, h.viewColumn]

/-- A view is scrolled once, whatever it reports. -/
theorem IsStill.reveal (hstill : IsStill emit) (hround : s.scroll.inProgress = true) (id : ViewId)
    (line : Int) :
    Reveals (fun id' => if id' = id then [line] else []) s (s.reveal emit id line) := by
  unfold Session.reveal
  split
  · next hnone =>
    refine ⟨rfl, rfl, rfl, rfl, rfl, rfl, fun _ => rfl, fun id' => ?_⟩
    by_cases hid : id' = id
    · rw [hid, hnone]
      rfl
    · simp [hid]
  · next v hv =>
    dsimp only
    have hmoved : Reveals (fun id' => if id' = id then [line] else []) s
        (s.modifyView id fun _ => (Host.reveal Recorder line v).1) :=
      Reveals.modifyView fun v' hv' => by
        obtain rfl := Option.some.inj (hv.symm.trans hv')
        exact ⟨rfl, rfl⟩
    split
    · exact hmoved
    · next line' _ =>
      have hround' : (s.modifyView id fun _ => (Host.reveal Recorder line v).1).scroll.inProgress
          = true := hmoved.scroll ▸ hround
      exact hmoved.trans_rests
        (hstill (.scrolled id line') _ (not_accepts_of_inProgress hround' id))

/-- **The round over some views,** by induction on them. -/
theorem IsStill.round (hstill : IsStill emit) (source : ViewId) (line : Int) (ids : List ViewId)
    (hround : s.scroll.inProgress = true) :
    Reveals (s.mirrored source line ids) s (ids.foldl
      (fun s id => if id ≠ source && s.viewColumn id ≠ s.viewColumn source
        then s.reveal emit id line else s) s) := by
  induction ids generalizing s with
  | nil =>
    have hnone : s.mirrored source line [] = fun _ => [] := by
      funext id
      simp [mirrored]
    rw [hnone]
    exact Rests.refl s
  | cons id ids ih =>
    rw [List.foldl_cons]
    by_cases hother : id ≠ source ∧ s.viewColumn id ≠ s.viewColumn source
    · have hfirst := hstill.reveal hround id line
      rw [if_pos (by simpa using hother)]
      have hrest := ih (s := s.reveal emit id line) (hfirst.scroll ▸ hround)
      rw [hfirst.mirrored_eq] at hrest
      have hall := hfirst.trans hrest
      have hlines : s.mirrored source line (id :: ids)
          = fun id' => (if id' = id then [line] else []) ++ s.mirrored source line ids id' := by
        funext id'
        unfold mirrored
        by_cases hid : id' = id
        · subst hid
          rw [if_pos hother, if_pos hother, if_pos rfl, List.count_cons_self, List.replicate_succ]
          rfl
        · rw [List.count_cons_of_ne (Ne.symm hid), if_neg hid]
          rfl
      rw [hlines]
      exact hall
    · rw [if_neg (by simpa using hother)]
      have hlines : s.mirrored source line (id :: ids) = s.mirrored source line ids := by
        funext id'
        unfold mirrored
        by_cases hid : id' = id
        · subst hid
          rw [if_neg hother, if_neg hother]
        · rw [List.count_cons_of_ne (Ne.symm hid)]
      rw [hlines]
      exact ih hround

theorem Reveals.inRound (h : Reveals lines s s') : Reveals lines s.inRound s'.inRound where
  scroll := by
    show { s'.scroll with inProgress := true } = { s.scroll with inProgress := true }
    rw [h.scroll]
  pending := congrArg (· + 1) h.pending
  deferred := h.deferred
  active := h.active
  visible := h.visible
  signal := h.signal
  viewColumn := h.viewColumn
  revealed := h.revealed

/-- A session that defers the end of rounds is then in the middle of one. -/
theorem IsStill.scrollLinked (hstill : IsStill emit) {source : ViewId} (haccepts : s.Accepts source)
    (hdeferred : s.deferred = true) (line : Int) :
    Reveals (s.mirrored source line s.visible) s.inRound (s.scrollLinked emit source line) := by
  obtain ⟨henabled, hidle, hactive⟩ := haccepts
  unfold Session.scrollLinked
  rw [if_neg (by simp [henabled, hidle, hactive])]
  dsimp only
  have hround := hstill.round (s := { s with scroll := { s.scroll with inProgress := true } })
    source line s.visible rfl
  generalize s.visible.foldl _ _ = scrolled at hround ⊢
  rw [if_pos (hround.deferred.trans hdeferred)]
  exact ⟨hround.scroll, congrArg (· + 1) hround.pending, hround.deferred, hround.active,
    hround.visible, hround.signal, hround.viewColumn, hround.revealed⟩

/-- Calls one subscriber to an event, if its subscription has not ended. -/
def call (emit : Delivery PlainView Recorder) (e : Event) (s : ObservedSession)
    (sub : Subscription Interest) : ObservedSession :=
  if s.signal.isActive sub.id then s.react emit sub.listener.listener e else s

/-- The delivery of a report that begins a round: until the session's own listener is called nothing
is scrolled, and from then on the round is in progress. -/
theorem IsStill.callSubscribers (hstill : IsStill emit) {source : ViewId}
    (haccepts : s.Accepts source) (hdeferred : s.deferred = true) (hsubscribed : s.IsSubscribed)
    (line : Int) :
    Reveals (s.mirrored source line s.visible) s.inRound
      (s.callSubscribers emit (.scrolled source line)) := by
  have hbegin {s' : ObservedSession} (hs' : Rests s s') :
      Reveals (s.mirrored source line s.visible) s.inRound (s'.scrollLinked emit source line) := by
    have hround := hstill.scrollLinked ((hs'.accepts_iff source).2 haccepts)
      (hs'.deferred.trans hdeferred) line
    rw [hs'.mirrored_eq, hs'.visible] at hround
    exact Rests.trans_reveals hs'.inRound hround
  have hgoOn {s' : ObservedSession} (l : Listener)
      (hs' : Reveals (s.mirrored source line s.visible) s.inRound s') :
      Reveals (s.mirrored source line s.visible) s.inRound
        (s'.react emit l (.scrolled source line)) := by
    have hround : s'.scroll.inProgress = true := by
      rw [hs'.scroll]
      rfl
    exact hs'.trans_rests (hstill.react (Or.inr (not_accepts_of_inProgress hround source)))
  have hscrolling {s' : ObservedSession}
      (hs' : Rests s s' ∨ Reveals (s.mirrored source line s.visible) s.inRound s') :
      Reveals (s.mirrored source line s.visible) s.inRound
        (s'.react emit .scrolling (.scrolled source line)) :=
    hs'.elim hbegin (hgoOn .scrolling)
  obtain ⟨sub, hsub, hlistener⟩ := hsubscribed ⟨.scrolled, .scrolling⟩ (by simp [ownInterests])
  have hmem : sub ∈ s.subscribers .scrolled := List.mem_filter.2 ⟨hsub, by simp [hlistener]⟩
  obtain ⟨before, after, hsplit⟩ := List.append_of_mem hmem
  show Reveals _ _ ((s.subscribers .scrolled).foldl (call emit (.scrolled source line)) s)
  rw [hsplit, List.foldl_append, List.foldl_cons]
  -- linked scrolling may be subscribed more than once, and only its first call begins the round
  have hbefore : Rests s (before.foldl (call emit (.scrolled source line)) s) ∨
      Reveals (s.mirrored source line s.visible) s.inRound
        (before.foldl (call emit (.scrolled source line)) s) := by
    refine List.foldlRecOn (motive := fun s' => Rests s s' ∨
      Reveals (s.mirrored source line s.visible) s.inRound s') before _ (Or.inl (Rests.refl s)) ?_
    intro s' hs' other _
    unfold call
    split
    · by_cases hl : other.listener.listener = .scrolling
      · rw [hl]
        exact Or.inr (hscrolling hs')
      · exact hs'.imp (fun hrests => hrests.trans (hstill.react (Or.inl hl))) (hgoOn _)
    · exact hs'
  generalize before.foldl (call emit (.scrolled source line)) s = s₁ at hbefore ⊢
  have hsignal : s₁.signal = s.signal := hbefore.elim (·.signal) (·.signal)
  have hactive : s₁.signal.isActive sub.id = true := by
    rw [hsignal]
    exact List.any_eq_true.2 ⟨sub, hsub, by simp⟩
  have hcalled : Reveals (s.mirrored source line s.visible) s.inRound
      (call emit (.scrolled source line) s₁ sub) := by
    rw [call, if_pos hactive, hlistener]
    exact hscrolling hbefore
  refine List.foldlRecOn after _ hcalled fun s' hs' other _ => ?_
  unfold call
  exact iteInduction (fun _ => hgoOn _ hs') fun _ => hs'

/-- **A report that begins a round,** delivered from outside. -/
theorem reveals_emit_scrolled {source : ViewId} (haccepts : s.Accepts source)
    (hdeferred : s.deferred = true) (hsubscribed : s.IsSubscribed) (line : Int) :
    Reveals (s.mirrored source line s.visible) s.inRound
      (Session.emit (.scrolled source line) s) :=
  (isStill_emitNested _).callSubscribers haccepts hdeferred hsubscribed line

/-! ## One callback for one round -/

/-- Rounds are put off, and one is in progress exactly while one callback is pending. -/
structure IsGuarded (s : ObservedSession) : Prop where
  deferred : s.deferred = true
  pending_le : s.pending ≤ 1
  inProgress_iff : s.scroll.inProgress = true ↔ s.pending = 1

namespace IsGuarded

theorem reveals (hs : s.IsGuarded) (h : Reveals lines s s') : s'.IsGuarded := by
  refine ⟨h.deferred.trans hs.deferred, ?_, ?_⟩
  · rw [h.pending]
    exact hs.pending_le
  · rw [h.scroll, h.pending]
    exact hs.inProgress_iff

theorem pending_eq_zero (hs : s.IsGuarded) (hidle : s.scroll.inProgress = false) :
    s.pending = 0 := by
  have hnot : s.pending ≠ 1 := fun hpending => by
    rw [hs.inProgress_iff.2 hpending] at hidle
    exact Bool.noConfusion hidle
  have hle := hs.pending_le
  omega

theorem inRound (hs : s.IsGuarded) (hidle : s.scroll.inProgress = false) : s.inRound.IsGuarded := by
  have hpending : s.inRound.pending = 1 := congrArg (· + 1) (hs.pending_eq_zero hidle)
  exact ⟨hs.deferred, Nat.le_of_eq hpending, iff_of_true rfl hpending⟩

/-- A report of scrolling begins a round with its callback, or nothing. -/
theorem scroll (hs : s.IsGuarded) (hsubscribed : s.IsSubscribed) (source : ViewId) (line : Int) :
    (Session.emit (.scrolled source line) s).IsGuarded := by
  by_cases haccepts : s.Accepts source
  · exact (hs.inRound haccepts.2.1).reveals
      (reveals_emit_scrolled haccepts hs.deferred hsubscribed line)
  · exact hs.reveals (isStill_emit (.scrolled source line) s haccepts)

/-- The callback ends the round that it was put off for. -/
theorem release (hs : s.IsGuarded) : s.release.IsGuarded := by
  unfold Session.release
  refine iteInduction (fun _ => hs) fun hsome => ?_
  have hle := hs.pending_le
  have hlast : s.pending - 1 = 0 := by omega
  refine ⟨hs.deferred, Nat.le_trans (Nat.le_of_eq hlast) (Nat.zero_le 1), ?_⟩
  simp [hlast]

theorem start (hs : s.IsGuarded) : (s.start Session.emit).IsGuarded := by
  have hbegun : s.begun.IsGuarded := ⟨hs.deferred, hs.pending_le, hs.inProgress_iff⟩
  have hvalidated : Rests s.begun
      (s.documents.foldl (fun s d => s.validate Session.emit d.path) s.begun) :=
    foldl_induction Rests.refl Rests.trans s.documents s.begun fun s' d _ _ =>
      isStill_emit.validate s' d.path
  rw [start_eq]
  exact hbegun.reveals (hvalidated.trans (rests_decorateVisible _))

end IsGuarded

theorem Reachable.isGuarded (hrun : s₀.overrun = false) (hs₀ : s₀.IsGuarded)
    (h : Reachable s₀ s) : s.IsGuarded := by
  induction h with
  | start => exact hs₀.start
  | edit edit _ ih => exact ih.reveals (isStill_emit.edit edit _)
  | @setVisible s views _ _ ih =>
    have hshown : IsGuarded { s with visible := views } :=
      ⟨ih.deferred, ih.pending_le, ih.inProgress_iff⟩
    exact hshown.reveals (isStill_emit (.shown views) _ id)
  | @setActive s view _ ih =>
    have hactivated : IsGuarded { s with active := view } :=
      ⟨ih.deferred, ih.pending_le, ih.inProgress_iff⟩
    unfold Session.setActive
    exact iteInduction (fun _ => ih) fun _ =>
      hactivated.reveals (isStill_emit (.activated view) _ id)
  | scroll view line hs ih => exact ih.scroll (hs.isRunning hrun).isSubscribed view line
  | release _ ih => exact ih.release
  | addView _ _ _ ih | place _ _ _ _ ih | toggleLinkedScroll _ ih | listen _ _ ih =>
    exact ⟨ih.deferred, ih.pending_le, ih.inProgress_iff⟩

/--
**A round is in progress exactly while one callback is pending that will end it.** A report from the
active view that begins a round scrolls every visible view of another column once, and no other; any
other report scrolls nothing, also one that views make in the middle of an event.
-/
theorem linkedScroll_guarded (hrun : s₀.overrun = false) (hdeferred : s₀.deferred = true)
    (hidle : s₀.scroll.inProgress = false) (hnone : s₀.pending = 0) (h : Reachable s₀ s) :
    s.pending ≤ 1 ∧ (s.scroll.inProgress = true ↔ s.pending = 1) ∧
    ∀ source line,
      (s.visible.Nodup → s.Accepts source →
        Reveals (fun id => if id ∈ s.visible ∧ id ≠ source ∧
            s.viewColumn id ≠ s.viewColumn source then [line] else [])
          s.inRound (Session.emit (.scrolled source line) s)) ∧
      (¬ s.Accepts source → Rests s (Session.emit (.scrolled source line) s)) ∧
      ∀ depth (s' : ObservedSession), s'.scroll.inProgress = true →
        Rests s' (emitNested depth (.scrolled source line) s') := by
  have hguarded : s.IsGuarded := by
    refine h.isGuarded hrun ⟨hdeferred, ?_, ?_⟩
    · rw [hnone]
      exact Nat.zero_le 1
    · simp [hidle, hnone]
  have hsubscribed := (h.isRunning hrun).isSubscribed
  refine ⟨hguarded.pending_le, hguarded.inProgress_iff, fun source line => ⟨?_, ?_, ?_⟩⟩
  · intro hnodup haccepts
    have hround := reveals_emit_scrolled haccepts hguarded.deferred hsubscribed line
    rwa [funext (mirrored_of_nodup hnodup source line)] at hround
  · exact isStill_emit (.scrolled source line) s
  · exact fun depth s' hround =>
      isStill_emitNested depth (.scrolled source line) s' (not_accepts_of_inProgress hround source)

/-- Two columns of views that are scrolled together. The view of the other column reports where it
is scrolled to. -/
def columns : ObservedSession :=
  { observed [] with
    views := [{}, { column := 1, echo := true }, {}]
    visible := [0, 1, 2]
    active := some 0
    scroll := { enabled := true }
    deferred := true }

theorem linkedScroll_guarded_columns :
    let s := columns.start Session.emit
    let s' := Session.emit (.scrolled 0 10) s
    s'.views[1]?.map (·.revealed) = some [10] ∧ s'.views[2]?.map (·.revealed) = some [] ∧
      s'.pending = 1 ∧ Rests s' (Session.emit (.scrolled 0 11) s') ∧
      s'.release.scroll.inProgress = false := by
  intro s s'
  have hreached : Reachable columns s' := .scroll 0 10 .start
  have haccepts : s.Accepts 0 := by
    unfold Accepts
    decide +kernel
  have hnodup : s.visible.Nodup := by decide +kernel
  have hround := ((linkedScroll_guarded rfl rfl rfl rfl .start).2.2 0 10).1 hnodup haccepts
  have hinProgress : s'.scroll.inProgress = true := by
    rw [hround.scroll]
    rfl
  obtain ⟨-, hpending, hreports⟩ := linkedScroll_guarded rfl rfl rfl rfl hreached
  refine ⟨(hround.revealed 1).trans (by decide +kernel),
    (hround.revealed 2).trans (by decide +kernel), hpending.1 hinProgress,
    (hreports 0 11).2.1 (not_accepts_of_inProgress hinProgress 0), ?_⟩
  simp [Session.release, hpending.1 hinProgress]

end LangFile.Session
