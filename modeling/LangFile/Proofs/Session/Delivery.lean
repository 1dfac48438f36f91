import LangFile.Proofs.Session.Surroundings

/-!
# What deliveries keep

A delivery nests: listeners cause events while others still wait for theirs. With orderly
surroundings it comes to an end, and a relation between sessions that each single thing done in its
course keeps is kept by the whole of it.

1. Steps and calls one after another (`foldl_induction`, `exists_step`, `exists_call`).
2. How deep deliveries nest (`need`), and that the nesting allowed is never used up (`Calm`).
3. The relations that deliveries keep (`IsKept`), and what is settled when they are over
   (`IsKept.meets_emit`).
-/

namespace LangFile

/-! ## One after another -/

section

variable {α σ : Type} {R : σ → σ → Prop}

/-- What each step keeps is kept by all of them. -/
theorem foldl_induction (refl : ∀ s, R s s) (trans : ∀ {a b c}, R a b → R b c → R a c)
    {f : σ → α → σ} (l : List α) (s : σ) (step : ∀ s' x, x ∈ l → R s s' → R s' (f s' x)) :
    R s (l.foldl f s) := by
  induction l generalizing s with
  | nil => exact refl s
  | cons x l ih =>
    have hfirst := step s x List.mem_cons_self (refl s)
    refine trans hfirst (ih (f s x) fun s' y hy hs' => ?_)
    exact step s' y (List.mem_cons_of_mem _ hy) (trans hfirst hs')

/-- Each step is somewhere among the others, and what they keep is kept around it. -/
theorem exists_step (refl : ∀ s, R s s) (trans : ∀ {a b c}, R a b → R b c → R a c)
    {f : σ → α → σ} {l : List α} {s : σ} {x : α} (hx : x ∈ l)
    (step : ∀ s' y, y ∈ l → R s s' → R s' (f s' y)) :
    ∃ s₁, R s s₁ ∧ R (f s₁ x) (l.foldl f s) := by
  obtain ⟨before, after, rfl⟩ := List.append_of_mem hx
  have hbefore : R s (before.foldl f s) := foldl_induction refl trans before s fun s' y hy hs' =>
    step s' y (List.mem_append_left _ hy) hs'
  have hthis := trans hbefore (step _ x (by simp) hbefore)
  refine ⟨before.foldl f s, hbefore, ?_⟩
  rw [List.foldl_append, List.foldl_cons]
  exact foldl_induction refl trans after _ fun s' y hy hs' =>
    step s' y (by simp [hy]) (trans hthis hs')

variable {isActive : σ → Nat → Bool} {f : α → σ → σ} {subs : List (Subscription α)} {s : σ}

theorem deliver_induction (refl : ∀ s, R s s) (trans : ∀ {a b c}, R a b → R b c → R a c)
    (step : ∀ s' a, R s s' → R s' (f a s')) : R s (deliver isActive f subs s) := by
  refine foldl_induction refl trans subs s fun s' sub _ hs' => ?_
  split
  · exact step s' sub.listener hs'
  · exact refl s'

/-- A subscriber that stays active is called, and the calls around it keep what calls keep. -/
theorem exists_call (refl : ∀ s, R s s) (trans : ∀ {a b c}, R a b → R b c → R a c)
    (step : ∀ s' a, R s s' → R s' (f a s')) {sub : Subscription α} (hsub : sub ∈ subs)
    (hactive : ∀ s', R s s' → isActive s' sub.id = true) :
    ∃ s₁, R s s₁ ∧ R (f sub.listener s₁) (deliver isActive f subs s) := by
  obtain ⟨s₁, hs₁, hcalled⟩ := exists_step refl trans
    (f := fun s sub => if isActive s sub.id then f sub.listener s else s) hsub
    fun s' sub _ hs' => by
      split
      · exact step s' sub.listener hs'
      · exact refl s'
  rw [if_pos (hactive s₁ hs₁)] at hcalled
  exact ⟨s₁, hs₁, hcalled⟩

end

namespace Session

variable {V E : Type} [Host V E] [Host.Orderly V E] {s s' s'' : Session V E} {e : Event}
  {emit : Delivery V E} {depth : Nat}

/-! ## The depth of deliveries -/

/-- The number of events that the surroundings will still answer with edits. -/
def budget (s : Session V E) : Nat := Host.Orderly.budget V s.outside

/-- How deep the delivery of an event nests at most. An edit takes two levels: for its own event, and
for the news of the findings. A round of scrolling takes a level for what views report. -/
def need (e : Event) (s : Session V E) : Nat :=
  2 * s.budget + match e with
    | .opened _ | .changed _ => 2
    | .scrolled _ _ => if s.scroll.inProgress then 1 else 2
    | _ => 1

theorem need_le (e : Event) (s : Session V E) : need e s ≤ 2 * s.budget + 2 := by
  unfold need
  split <;> (try split) <;> omega

theorem lt_need (e : Event) (s : Session V E) : 2 * s.budget < need e s := by
  unfold need
  split <;> (try split) <;> omega

/-- Nothing is left out, nothing is paid back, and a round of scrolling goes on. -/
structure Calm (s s' : Session V E) : Prop where
  overrun : s'.overrun = s.overrun
  budget : s'.budget ≤ s.budget
  inProgress : s.scroll.inProgress = true → s'.scroll.inProgress = true

namespace Calm

theorem refl (s : Session V E) : Calm s s := ⟨rfl, Nat.le_refl _, id⟩

theorem trans (h : Calm s s') (h' : Calm s' s'') : Calm s s'' :=
  ⟨h'.overrun.trans h.overrun, Nat.le_trans h'.budget h.budget, h'.inProgress ∘ h.inProgress⟩

theorem quiet (h : Calm s s') (hquiet : s.budget = 0) : s'.budget = 0 :=
  Nat.eq_zero_of_le_zero (hquiet ▸ h.budget)

/-- What is allowed at first is allowed later. -/
theorem need_le (h : Calm s s') (e : Event) : need e s' ≤ need e s := by
  have hbudget := h.budget
  unfold need
  cases e with
  | scrolled =>
    dsimp only
    split
    · split <;> omega
    · next hnot =>
      rw [if_neg fun hs => hnot (h.inProgress hs)]
      omega
  | _ =>
    dsimp only
    omega

end Calm

/-! ## What deliveries keep -/

/-- Deliveries that nest no deeper than `depth` keep a relation, and settle something between the
session before and the session after. -/
structure Meets (keeps : Session V E → Session V E → Prop)
    (settles : Event → Session V E → Session V E → Prop) (depth : Nat) (emit : Delivery V E) :
    Prop where
  calm {e : Event} {s : Session V E} : need e s ≤ depth → Calm s (emit e s)
  keeps {e : Event} {s : Session V E} : need e s ≤ depth → keeps s (emit e s)
  settles {e : Event} {s : Session V E} : need e s ≤ depth → settles e s (emit e s)

/-- What is done beside findings and documents does not matter for the relation: views are decorated
and scrolled, the surroundings hear of events, and rounds of scrolling and previews go on. -/
structure IsIndifferent (keeps : Session V E → Session V E → Prop) : Prop where
  refl (s : Session V E) : keeps s s
  trans {s s' s'' : Session V E} : keeps s s' → keeps s' s'' → keeps s s''
  decorated (s : Session V E) (id : ViewId) : keeps s (s.decorateView id)
  moved (s : Session V E) {id : ViewId} {v : V} (line : Int) :
    s.views[id]? = some v → keeps s (s.modifyView id fun _ => (Host.reveal E line v).1)
  told (emit : Delivery V E) (e : Event) (s : Session V E) : ∃ views outside edits,
    Host.hear emit e s
      = edits.foldl (fun s edit => ObserverEdit.perform emit edit s) { s with views, outside } ∧
    Host.Orderly.budget V outside ≤ s.budget ∧
    (edits ≠ [] → Host.Orderly.budget V outside < s.budget) ∧ keeps s { s with views, outside }
  aside (s : Session V E) (scroll : LinkedScroll) (pending : Nat)
    (outputs : List (PreviewId × PreviewOutput)) (unreadable : Bool) (outside : E) :
    Host.Orderly.budget V outside ≤ s.budget →
    keeps s { s with scroll, pending, outputs, unreadable, outside }

/-- Views do not matter at all, nor what lies beside them. -/
theorem IsIndifferent.of_aside {keeps : Session V E → Session V E → Prop}
    (refl : ∀ s, keeps s s) (trans : ∀ {s s' s''}, keeps s s' → keeps s' s'' → keeps s s'')
    (aside : ∀ (s : Session V E) (views : List V) (handles : StyleHandles) (scroll : LinkedScroll)
      (pending : Nat) (outputs : List (PreviewId × PreviewOutput)) (unreadable : Bool) (outside : E),
      Host.Orderly.budget V outside ≤ s.budget →
      keeps s { s with views, handles, scroll, pending, outputs, unreadable, outside }) :
    IsIndifferent keeps where
  refl := refl
  trans := trans
  decorated s id := by
    unfold Session.decorateView
    split
    · exact refl s
    · exact aside s _ _ s.scroll s.pending s.outputs s.unreadable s.outside (Nat.le_refl _)
  moved s _ _ _ _ :=
    aside s _ s.handles s.scroll s.pending s.outputs s.unreadable s.outside (Nat.le_refl _)
  told emit e s := by
    obtain ⟨views, outside, edits, heq, hle, hpaid⟩ := Host.Orderly.hear_eq emit e s
    exact ⟨views, outside, edits, heq, hle, hpaid,
      aside s views s.handles s.scroll s.pending s.outputs s.unreadable outside hle⟩
  aside s scroll pending outputs unreadable outside :=
    aside s s.views s.handles scroll pending outputs unreadable outside

/-- The relation is kept by the single things that are done in the course of a delivery: findings and
documents change only with the news of it. -/
structure IsKept (keeps : Session V E → Session V E → Prop)
    (settles : Event → Session V E → Session V E → Prop) : Prop extends IsIndifferent keeps where
  validate {emit : Delivery V E} {depth : Nat} {s : Session V E} (path : Text) :
    Meets keeps settles depth emit → 2 * s.budget + 1 ≤ depth → keeps s (s.validate emit path)
  edit {emit : Delivery V E} {depth : Nat} {s : Session V E} (edit : ObserverEdit) :
    Meets keeps settles depth emit → 2 * s.budget + 2 ≤ depth → keeps s (edit.perform emit s)

/-- Calls the subscribers to an event, which deliver further events by `emit`. -/
def callSubscribers (emit : Delivery V E) (e : Event) (s : Session V E) : Session V E :=
  deliver (fun s id => s.signal.isActive id) (fun interest s => s.react emit interest.listener e)
    (s.subscribers e.topic) s

section

variable {keeps : Session V E → Session V E → Prop}
  {settles : Event → Session V E → Session V E → Prop}

/-! ### Single things -/

/-- The delivery of an event in a session that differs in what is not counted. -/
theorem Meets.calm_of_eq (hemit : Meets keeps settles depth emit) (h : need e s' ≤ depth)
    (hoverrun : s'.overrun = s.overrun) (houtside : s'.outside = s.outside)
    (hscroll : s'.scroll = s.scroll) : Calm s (emit e s') := by
  refine Calm.trans ⟨hoverrun, ?_, fun hround => hscroll ▸ hround⟩ (hemit.calm h)
  rw [Session.budget, houtside]
  exact Nat.le_refl _

theorem calm_validate (hemit : Meets keeps settles depth emit) (path : Text)
    (h : 2 * s.budget + 1 ≤ depth) : Calm s (s.validate emit path) := by
  unfold validate
  split
  · exact Calm.refl s
  · next c _ =>
    have hposted : Calm s (s.post emit path c.candidate) := hemit.calm_of_eq h rfl rfl rfl
    refine hposted.trans (hemit.calm_of_eq ?_ rfl rfl rfl)
    have hbudget := hposted.budget
    show 2 * (s.post emit path c.candidate).budget + 1 ≤ depth
    omega

theorem calm_edit (hemit : Meets keeps settles depth emit) (edit : ObserverEdit)
    (h : 2 * s.budget + 2 ≤ depth) : Calm s (edit.perform emit s) := by
  cases edit with
  | openDocument path text =>
    unfold ObserverEdit.perform openDocument
    dsimp only
    split
    · exact Calm.refl s
    · exact hemit.calm_of_eq h rfl rfl rfl
  | updateDocument path text =>
    unfold ObserverEdit.perform updateDocument
    dsimp only
    split
    · exact Calm.refl s
    · split
      · exact Calm.refl s
      · exact hemit.calm_of_eq h rfl rfl rfl

/-- What `keeps` says, beside that nothing is left out. -/
def CalmlyKeeps (keeps : Session V E → Session V E → Prop) (s s' : Session V E) : Prop :=
  Calm s s' ∧ keeps s s'

namespace IsIndifferent

variable (hkept : IsIndifferent keeps)

include hkept

theorem calmly_refl (s : Session V E) : CalmlyKeeps keeps s s := ⟨Calm.refl s, hkept.refl s⟩

theorem calmly_trans (h : CalmlyKeeps keeps s s') (h' : CalmlyKeeps keeps s' s'') :
    CalmlyKeeps keeps s s'' :=
  ⟨h.1.trans h'.1, hkept.trans h.2 h'.2⟩

theorem calmly_aside (s : Session V E) (outputs : List (PreviewId × PreviewOutput))
    (unreadable : Bool) {outside : E} (h : Host.Orderly.budget V outside ≤ s.budget) :
    CalmlyKeeps keeps s { s with outputs, unreadable, outside } :=
  ⟨⟨rfl, h, fun hround => hround⟩,
    hkept.aside s s.scroll s.pending outputs unreadable outside h⟩

theorem decorateView (s : Session V E) (id : ViewId) : CalmlyKeeps keeps s (s.decorateView id) := by
  refine ⟨?_, hkept.decorated s id⟩
  unfold Session.decorateView
  split
  · exact Calm.refl s
  · exact ⟨rfl, Nat.le_refl _, fun hround => hround⟩

theorem decorateVisible (s : Session V E) : CalmlyKeeps keeps s s.decorateVisible :=
  foldl_induction hkept.calmly_refl hkept.calmly_trans s.visible s
    fun s' id _ _ => hkept.decorateView s' id

theorem showOutput (s : Session V E) (id : PreviewId) (view : ViewId) (format : PreviewFormat) :
    CalmlyKeeps keeps s (s.showOutput id view format) := by
  unfold Session.showOutput
  split
  · exact hkept.calmly_aside s _ s.unreadable (Nat.le_refl _)
  · exact hkept.calmly_aside s s.outputs _ (Nat.le_refl _)

theorem refreshPreview (id : PreviewId) (e : Event) (s : Session V E) :
    CalmlyKeeps keeps s (s.refreshPreview id e) := by
  unfold Session.refreshPreview
  split
  · exact hkept.calmly_refl s
  · exact iteInduction (fun _ => hkept.showOutput s _ _ _) fun _ => hkept.calmly_refl s

end IsIndifferent

/-- A listener is called in its turn. -/
theorem IsIndifferent.exists_reaction {l : Listener} (hkept : IsIndifferent keeps)
    (hstep : ∀ s' (interest : Interest), CalmlyKeeps keeps s s' →
      CalmlyKeeps keeps s' (s'.react emit interest.listener e))
    (hsignal : ∀ s', keeps s s' → s'.signal = s.signal)
    (hheard : ∃ sub ∈ s.signal.subscriptions, sub.listener = ⟨e.topic, l⟩) :
    ∃ s₁, CalmlyKeeps keeps s s₁ ∧
      CalmlyKeeps keeps (s₁.react emit l e) (s.callSubscribers emit e) := by
  obtain ⟨sub, hsub, hlistener⟩ := hheard
  have hmem : sub ∈ s.subscribers e.topic := List.mem_filter.2 ⟨hsub, by simp [hlistener]⟩
  have hcall : ∃ s₁, CalmlyKeeps keeps s s₁ ∧
      CalmlyKeeps keeps (s₁.react emit sub.listener.listener e) (s.callSubscribers emit e) := by
    refine exists_call (f := fun interest s => s.react emit interest.listener e)
      hkept.calmly_refl hkept.calmly_trans hstep hmem fun s' hs' => ?_
    rw [hsignal s' hs'.2]
    exact List.any_eq_true.2 ⟨sub, hsub, by simp⟩
  rw [hlistener] at hcall
  exact hcall

namespace IsKept

variable (hkept : IsKept keeps settles) (hemit : Meets keeps settles depth emit)

include hkept hemit

theorem edits (edits : List ObserverEdit) (h : 2 * s.budget + 2 ≤ depth) :
    CalmlyKeeps keeps s (edits.foldl (fun s edit => edit.perform emit s) s) := by
  refine foldl_induction hkept.calmly_refl hkept.calmly_trans edits s fun s' edit _ hs' => ?_
  have hbudget := hs'.1.budget
  exact ⟨calm_edit hemit edit (by omega), hkept.edit edit hemit (by omega)⟩

theorem hear (e : Event) (h : 2 * s.budget ≤ depth) : CalmlyKeeps keeps s (Host.hear emit e s) := by
  obtain ⟨views, outside, edits, heq, hle, hpaid, hkeeps⟩ := hkept.told emit e s
  rw [heq]
  have haside : CalmlyKeeps keeps s { s with views, outside } :=
    ⟨⟨rfl, hle, fun hround => hround⟩, hkeeps⟩
  cases edits with
  | nil => exact haside
  | cons edit edits =>
    refine hkept.calmly_trans haside (hkept.edits hemit (edit :: edits) ?_)
    have hlt : Host.Orderly.budget V outside < s.budget := hpaid (List.cons_ne_nil _ _)
    show 2 * Host.Orderly.budget V outside + 2 ≤ depth
    omega

/-- While a round of scrolling is in progress, what a view reports begins no other. -/
theorem reveal (id : ViewId) (line : Int) (hround : s.scroll.inProgress = true)
    (h : 2 * s.budget + 1 ≤ depth) : CalmlyKeeps keeps s (s.reveal emit id line) := by
  unfold Session.reveal
  split
  · exact hkept.calmly_refl s
  · next v hv =>
    dsimp only
    have hmoved := hkept.moved s line hv
    generalize hrevealed : s.modifyView id (fun _ => (Host.reveal E line v).1) = revealed
    have hbudget : revealed.budget = s.budget := by rw [← hrevealed]; rfl
    have hscroll : revealed.scroll = s.scroll := by rw [← hrevealed]; rfl
    have haside : CalmlyKeeps keeps s revealed := by
      refine ⟨⟨?_, Nat.le_of_eq hbudget, fun hs => hscroll ▸ hs⟩, hrevealed ▸ hmoved⟩
      rw [← hrevealed]
      rfl
    split
    · exact haside
    · next line' _ =>
      refine hkept.calmly_trans haside ?_
      rcases Host.Orderly.revealed_eq emit id line' revealed with heq | ⟨outside, heq, hle⟩
      · have hneed : need (.scrolled id line') revealed ≤ depth := by
          show 2 * revealed.budget + (if revealed.scroll.inProgress then 1 else 2) ≤ depth
          rw [hbudget, hscroll, if_pos hround]
          exact h
        rw [heq]
        exact ⟨hemit.calm hneed, hemit.keeps hneed⟩
      · rw [heq]
        exact hkept.calmly_aside revealed _ _ hle

theorem scrollLinked (source : ViewId) (line : Int)
    (h : s.scroll.inProgress = false → 2 * s.budget + 1 ≤ depth) :
    CalmlyKeeps keeps s (s.scrollLinked emit source line) := by
  unfold Session.scrollLinked
  split
  · exact hkept.calmly_refl s
  · next hbegins =>
    have hround : s.scroll.inProgress = false := by
      simp only [Bool.or_eq_true, not_or, Bool.not_eq_true] at hbegins
      exact hbegins.1.2
    dsimp only
    have hscrolled := foldl_induction (R := CalmlyKeeps keeps) hkept.calmly_refl hkept.calmly_trans
      (f := fun s' id => if id ≠ source && s'.viewColumn id ≠ s'.viewColumn source
        then s'.reveal emit id line else s')
      s.visible { s with scroll := { s.scroll with inProgress := true } } (fun s' id _ hs' => by
        split
        · have hbudget : s'.budget ≤ s.budget := hs'.1.budget
          have hle := h hround
          exact hkept.reveal hemit id line (hs'.1.inProgress rfl) (by omega)
        · exact hkept.calmly_refl s')
    generalize s.visible.foldl _ _ = scrolled at hscrolled ⊢
    -- the end of the round is no step of its own: it is over only when it was begun here
    have hend (scroll : LinkedScroll) (pending : Nat) :
        CalmlyKeeps keeps s { scrolled with scroll, pending } := by
      refine ⟨⟨hscrolled.1.overrun, hscrolled.1.budget, fun hs => ?_⟩, ?_⟩
      · rw [hround] at hs
        exact Bool.noConfusion hs
      · refine hkept.trans (hkept.aside s { s.scroll with inProgress := true } s.pending s.outputs
          s.unreadable s.outside (Nat.le_refl _)) (hkept.trans hscrolled.2 ?_)
        exact hkept.aside scrolled scroll pending _ _ _ (Nat.le_refl _)
    split
    · exact hend _ _
    · exact hend _ _

/-! ### Whole deliveries -/

theorem react (l : Listener) (e : Event) (h : need e s ≤ depth + 1) :
    CalmlyKeeps keeps s (s.react emit l e) := by
  have hbudget := lt_need e s
  have hvalidated (path : Text) (hle : 2 * s.budget + 1 ≤ depth) :
      CalmlyKeeps keeps s (s.validate emit path) :=
    ⟨calm_validate hemit path hle, hkept.validate path hemit hle⟩
  cases l with
  | validation =>
    cases e with
    | opened path =>
      have hle : 2 * s.budget + 2 ≤ depth + 1 := h
      exact hvalidated path (by omega)
    | changed path =>
      have hle : 2 * s.budget + 2 ≤ depth + 1 := h
      exact hkept.calmly_trans (hvalidated path (by omega)) (hkept.decorateVisible _)
    | _ => exact hkept.calmly_refl s
  | decoration => exact hkept.decorateVisible s
  | scrolling =>
    cases e with
    | scrolled id line =>
      refine hkept.scrollLinked hemit id line fun hround => ?_
      have hle : 2 * s.budget + (if s.scroll.inProgress then 1 else 2) ≤ depth + 1 := h
      rw [hround] at hle
      simp only [Bool.false_eq_true, if_false] at hle
      omega
    | _ => exact hkept.calmly_refl s
  | preview id => exact hkept.refreshPreview id e s
  | outside => exact hkept.hear hemit e (by omega)

theorem callSubscribers (h : need e s ≤ depth + 1) :
    CalmlyKeeps keeps s (s.callSubscribers emit e) :=
  deliver_induction hkept.calmly_refl hkept.calmly_trans fun _ interest hs' =>
    hkept.react hemit interest.listener e (Nat.le_trans (hs'.1.need_le e) h)

omit hemit

variable (hsettles : ∀ {emit : Delivery V E} {depth : Nat} {e : Event} {s : Session V E},
  Meets keeps settles depth emit → need e s ≤ depth + 1 →
    settles e s (s.callSubscribers emit e))

include hsettles

/-- **Deliveries keep what is kept by each thing done in their course,** by induction on the nesting
that is allowed. -/
theorem meets_emitNested (depth : Nat) : Meets keeps settles depth (Session.emitNested depth) := by
  induction depth with
  | zero =>
    have hnone {e : Event} {s : Session V E} : ¬ need e s ≤ 0 := fun h => by
      have hlt := lt_need e s
      omega
    exact ⟨fun h => absurd h hnone, fun h => absurd h hnone, fun h => absurd h hnone⟩
  | succ depth ih =>
    exact ⟨fun h => (hkept.callSubscribers ih h).1, fun h => (hkept.callSubscribers ih h).2,
      fun h => hsettles ih h⟩

/-- The nesting that the surroundings allow is enough. -/
theorem meets_emit (depth : Nat) : Meets keeps settles depth Session.emit := by
  have henough (e : Event) (s : Session V E) : need e s ≤ Host.nesting V s.outside :=
    Nat.le_trans (need_le e s) (Host.Orderly.le_nesting s.outside)
  have hmeets (s : Session V E) := hkept.meets_emitNested hsettles (Host.nesting V s.outside)
  exact ⟨fun _ => (hmeets _).calm (henough _ _), fun _ => (hmeets _).keeps (henough _ _),
    fun _ => (hmeets _).settles (henough _ _)⟩

end IsKept

end

end Session

end LangFile
