import LangFile.Proofs.Session.Operation

/-!
# Observed sessions in their course

The states that a started session reaches when documents are edited, views come, go, scroll and move,
and listeners are added, in any order and as often as one likes (`Reachable`). The observers of the
session edit as their plan says, in the middle of any event.

The callbacks that end a round of scrolling run one at a time (`release`). In all these states the
session listens, and no delivery has been left out (`Reachable.isRunning`).
-/

namespace LangFile.Session

/-! ## Callbacks one at a time -/

/-- Runs one of the callbacks that end a round of scrolling, if there is one. The session's
`runPending` runs all that there are at once. -/
def release {V E : Type} (s : Session V E) : Session V E :=
  if s.pending = 0 then s
  else { s with
    pending := s.pending - 1
    scroll := { s.scroll with inProgress := false } }

/-! ## What is done to a session -/

/-- The states that a session reaches from its start. A view is added with a document that is open,
and only views that there are can be shown. -/
inductive Reachable (s₀ : ObservedSession) : ObservedSession → Prop
  | start : Reachable s₀ (s₀.start Session.emit)
  | edit {s : ObservedSession} (edit : ObserverEdit) :
    Reachable s₀ s → Reachable s₀ (edit.perform Session.emit s)
  | setVisible {s : ObservedSession} (views : List ViewId) :
    Reachable s₀ s → (∀ id ∈ views, id < s.views.length) →
    Reachable s₀ (s.setVisible Session.emit views)
  | setActive {s : ObservedSession} (view : Option ViewId) :
    Reachable s₀ s → Reachable s₀ (s.setActive Session.emit view)
  | addView {s : ObservedSession} (v : PlainView) :
    Reachable s₀ s → (∀ p, v.document = some p → ∃ d, s.document? p = some d) →
    Reachable s₀ { s with views := s.views ++ [v] }
  /-- A view is moved to a column, and its text to a line. -/
  | place {s : ObservedSession} (id : ViewId) (column top : Int) :
    Reachable s₀ s → Reachable s₀ (s.modifyView id fun v => { v with column, top })
  /-- A view reports the line that it has been scrolled to. -/
  | scroll {s : ObservedSession} (view : ViewId) (line : Int) :
    Reachable s₀ s → Reachable s₀ (Session.emit (.scrolled view line) s)
  | toggleLinkedScroll {s : ObservedSession} :
    Reachable s₀ s → Reachable s₀ s.toggleLinkedScroll.1
  | release {s : ObservedSession} : Reachable s₀ s → Reachable s₀ s.release
  /-- The observers subscribe to a topic once more. -/
  | listen {s : ObservedSession} (topic : Topic) :
    Reachable s₀ s → Reachable s₀ (s.subscribe topic .outside)

/-- The session's own listeners are subscribed. -/
def IsSubscribed (s : ObservedSession) : Prop :=
  ∀ interest ∈ ownInterests, ∃ sub ∈ s.signal.subscriptions, sub.listener = interest

/-- The session listens, and no delivery has been left out. -/
structure IsRunning (s : ObservedSession) : Prop where
  isSubscribed : s.IsSubscribed
  overrun : s.overrun = false

variable {s s' s₀ : ObservedSession}

theorem IsSubscribed.of_signal_eq (h : s.IsSubscribed) (hsignal : s'.signal = s.signal) :
    s'.IsSubscribed := by
  unfold IsSubscribed
  rw [hsignal]
  exact h

theorem IsRunning.of_eq (h : s.IsRunning) (hsignal : s'.signal = s.signal)
    (hoverrun : s'.overrun = s.overrun) : s'.IsRunning :=
  ⟨h.isSubscribed.of_signal_eq hsignal, hoverrun.trans h.overrun⟩

theorem mem_subscriptions_foldl {interests : List Interest} {interest : Interest}
    {signal : Signal Interest}
    (h : interest ∈ interests ∨ ∃ sub ∈ signal.subscriptions, sub.listener = interest) :
    ∃ sub ∈ (interests.foldl Signal.subscribe signal).subscriptions, sub.listener = interest := by
  induction interests generalizing signal with
  | nil => simpa using h
  | cons first interests ih =>
    refine ih ?_
    rcases h with hmem | ⟨sub, hsub, hlistener⟩
    · rcases List.mem_cons.1 hmem with rfl | hmem
      · exact Or.inr
          ⟨⟨signal.next, interest⟩, List.mem_append_right _ (List.mem_singleton.2 rfl), rfl⟩
      · exact Or.inl hmem
    · exact Or.inr ⟨sub, List.mem_append_left _ hsub, hlistener⟩

theorem isSubscribed_begun (s : ObservedSession) : s.begun.IsSubscribed :=
  fun _ hinterest => mem_subscriptions_foldl (Or.inl hinterest)

/-- **A session that has started goes on running.** -/
theorem Reachable.isRunning (hrun : s₀.overrun = false) (h : Reachable s₀ s) : s.IsRunning := by
  induction h with
  | start =>
    have hstarted := updates_start s₀
    exact IsRunning.of_eq ⟨isSubscribed_begun s₀, hrun⟩ hstarted.signal hstarted.overrun
  | @edit s edit _ ih =>
    have hedited := updates_edit_emit edit s
    exact ih.of_eq hedited.signal hedited.overrun
  | @setVisible s views _ _ ih =>
    have hshown := updates_emit (.shown views) { s with visible := views }
    exact ih.of_eq hshown.signal hshown.overrun
  | @setActive s view _ ih =>
    have hactivated := updates_emit (.activated view) { s with active := view }
    unfold Session.setActive
    split
    · exact ih
    · exact ih.of_eq hactivated.signal hactivated.overrun
  | @scroll s view line _ ih =>
    have hscrolled := updates_emit (.scrolled view line) s
    exact ih.of_eq hscrolled.signal hscrolled.overrun
  | release _ ih =>
    unfold Session.release
    split <;> exact ih.of_eq rfl rfl
  | listen topic _ ih =>
    refine ⟨fun interest hinterest => ?_, ih.overrun⟩
    obtain ⟨sub, hsub, hlistener⟩ := ih.isSubscribed interest hinterest
    exact ⟨sub, List.mem_append_left _ hsub, hlistener⟩
  | addView _ _ _ ih | place _ _ _ _ ih | toggleLinkedScroll _ ih => exact ih.of_eq rfl rfl

end LangFile.Session
