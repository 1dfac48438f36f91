import LangFile.Proofs.Decoration.Grouping
import LangFile.Proofs.Session.Findings
import LangFile.Proofs.Session.Observation

/-!
# Decorations keep up with documents

The visible views of a session are drawn as the text that their document has now. Drawing computes
all spans anew, so it is enough that it happens after every event that may leave a view behind: a
change of a document, and news of the views. What listeners change in the course of an event is
drawn before their own event is over.

1. Views that are drawn as their text (`IsDrawn`), and that drawing leaves them so
   (`isDrawn_decorateVisible`).
2. What events do to drawn views (`Redraws`), and what is drawn when they are over (`Redrawn`).
3. Every visible view is drawn, in every state that a started session reaches
   (`decorations_current`).
-/

namespace LangFile.Session

variable {s s' s'' : ObservedSession} {id : ViewId}

/-! ## Drawn views -/

/-- The view is decorated as the present text of its document, if that is open. -/
def IsDrawn (s : ObservedSession) (id : ViewId) : Prop :=
  ∀ v p d, s.views[id]? = some v → v.document = some p → s.document? p = some d →
    v.decorations = some (Decoration.grouped (Decoration.runs d.text))

/-- The documents that views show are open. -/
def ShowsOpen (s : ObservedSession) : Prop :=
  ∀ v ∈ s.views, ∀ p, v.document = some p → ∃ d, s.document? p = some d

/-- Nothing has happened to the view nor to its document. -/
theorem IsDrawn.congr (h : s.IsDrawn id)
    (hview : (s'.views[id]?.map fun v => (v.document, v.decorations))
      = s.views[id]?.map fun v => (v.document, v.decorations))
    (hdocument : ∀ v p, s.views[id]? = some v → v.document = some p →
      s'.document? p = s.document? p) : s'.IsDrawn id := by
  intro v' p d hv' hp hd
  rw [hv', Option.map_some, eq_comm, Option.map_eq_some_iff] at hview
  obtain ⟨v, hv, heq⟩ := hview
  obtain ⟨hshows, hdrawn⟩ := Prod.mk.inj heq
  rw [← hshows] at hp
  rw [hdocument v p hv hp] at hd
  rw [← hdrawn]
  exact h v p d hv hp hd

/-- What does not see how a member is modified sees the list as before. -/
theorem map_modify_of_eq {α β : Type} {l : List α} {i : Nat} {f : α → α} {g : α → β}
    (h : ∀ a, l[i]? = some a → g (f a) = g a) : (l.modify i f).map g = l.map g := by
  refine List.ext_getElem? fun j => ?_
  rw [List.getElem?_map, List.getElem?_map, List.getElem?_modify]
  cases ha : l[j]? with
  | none => rfl
  | some a =>
    refine congrArg some ?_
    dsimp only
    split
    · next hij => exact h a (hij ▸ ha)
    · rfl

theorem document?_decorateView (s : ObservedSession) (id : ViewId) (p : Text) :
    (s.decorateView id).document? p = s.document? p := by
  unfold decorateView
  split <;> rfl

theorem getElem?_decorateView_of_ne {id' : ViewId} (h : id' ≠ id) (s : ObservedSession) :
    (s.decorateView id).views[id']? = s.views[id']? := by
  unfold decorateView
  split
  · rfl
  · exact List.getElem?_modify_ne _ _ (Ne.symm h)

/-- A view that has just been decorated is drawn. -/
theorem isDrawn_decorateView (s : ObservedSession) (id : ViewId) :
    (s.decorateView id).IsDrawn id := by
  have hshown {v : PlainView} {p : Text} (hv : s.views[id]? = some v) (hp : v.document = some p) :
      (s.viewDocument? id).bind s.document? = s.document? p := by
    have hdocument : s.viewDocument? id = some p := by
      unfold viewDocument?
      rw [hv]
      exact hp
    rw [hdocument]
    rfl
  intro v p d hv hp hd
  rw [document?_decorateView] at hd
  unfold decorateView at hv
  split at hv
  · next hnone =>
    rw [hshown hv hp, hd] at hnone
    simp at hnone
  · next d' hd' =>
    have hmodified : (s.views.modify id
        (Host.decorate Recorder (decorate d'.text s.handles).1))[id]? = some v := hv
    rw [List.getElem?_modify_eq] at hmodified
    obtain ⟨old, hold, rfl⟩ := Option.map_eq_some_iff.1 hmodified
    rw [hshown hold hp, hd] at hd'
    obtain rfl := Option.some.inj hd'
    exact congrArg some (Decoration.decorate_fst d.text s.handles)

/-! ## What events do to drawn views -/

/-- Views show what they showed, and those that are visible and drawn stay so. -/
structure Redraws (s s' : ObservedSession) : Prop extends Continues s s' where
  visible : s'.visible = s.visible
  documents : s'.views.map (·.document) = s.views.map (·.document)
  isDrawn {id : ViewId} :
    s.IsSubscribed → s.ShowsOpen → id ∈ s.visible → s.IsDrawn id → s'.IsDrawn id

/-- When the news of a change or of views is over, every visible view is drawn. -/
def Redrawn (e : Event) (s s' : ObservedSession) : Prop :=
  s.IsSubscribed → s.ShowsOpen → e.topic = .changed ∨ e.topic = .activated ∨ e.topic = .shown →
    ∀ id ∈ s.visible, s'.IsDrawn id

namespace Redraws

theorem length (h : Redraws s s') : s'.views.length = s.views.length := by
  simpa using congrArg List.length h.documents

theorem showsOpen (h : Redraws s s') (hs : s.ShowsOpen) : s'.ShowsOpen := by
  intro v hv p hp
  have hmem : v.document ∈ s.views.map (·.document) := h.documents ▸ List.mem_map_of_mem hv
  obtain ⟨old, hold, hsame⟩ := List.mem_map.1 hmem
  obtain ⟨d, hd⟩ := hs old hold p (hsame.trans hp)
  obtain ⟨d', hd', -⟩ := h.isOpen hd
  exact ⟨d', hd'⟩

theorem refl (s : ObservedSession) : Redraws s s := ⟨Continues.refl s, rfl, rfl, fun _ _ _ h => h⟩

theorem trans (h : Redraws s s') (h' : Redraws s' s'') : Redraws s s'' where
  toContinues := h.toContinues.trans h'.toContinues
  visible := h'.visible.trans h.visible
  documents := h'.documents.trans h.documents
  isDrawn hsubscribed hopen hid hdrawn :=
    h'.isDrawn (hsubscribed.of_signal_eq h.signal) (h.showsOpen hopen) (h.visible ▸ hid)
      (h.isDrawn hsubscribed hopen hid hdrawn)

/-- Nothing has happened to documents, nor to what is drawn. -/
theorem of_continues (h : Continues s s') (hvisible : s'.visible = s.visible)
    (hviews : s'.views.map (fun v => (v.document, v.decorations))
      = s.views.map fun v => (v.document, v.decorations))
    (hdocument : ∀ p, s'.document? p = s.document? p) : Redraws s s' := by
  refine ⟨h, hvisible, ?_, fun {id} _ _ _ hdrawn => hdrawn.congr ?_ fun _ p _ _ => hdocument p⟩
  · simpa [Function.comp_def] using congrArg (List.map Prod.fst) hviews
  · rw [← List.getElem?_map, hviews, List.getElem?_map]

theorem decorateView (s : ObservedSession) (id : ViewId) : Redraws s (s.decorateView id) := by
  have hdocuments : (s.decorateView id).views.map (·.document) = s.views.map (·.document) := by
    unfold Session.decorateView
    split
    · rfl
    · exact map_modify_of_eq fun _ _ => rfl
  refine ⟨?_, ?_, hdocuments, fun {id'} _ _ _ hdrawn => ?_⟩
  · unfold Session.decorateView
    split
    · exact Continues.refl s
    · exact Continues.of_eq rfl rfl rfl rfl rfl rfl
  · unfold Session.decorateView
    split <;> rfl
  · by_cases hid : id' = id
    · exact hid ▸ isDrawn_decorateView s id
    · exact hdrawn.congr (by rw [getElem?_decorateView_of_ne hid]) fun _ p _ _ =>
        document?_decorateView s id p

/-- A view that is scrolled shows what it showed. -/
theorem modifyView {f : PlainView → PlainView} (s : ObservedSession) (id : ViewId)
    (hf : ∀ v, s.views[id]? = some v →
      (f v).document = v.document ∧ (f v).decorations = v.decorations) :
    Redraws s (s.modifyView id f) := by
  refine of_continues (Continues.of_eq rfl rfl rfl rfl rfl rfl) rfl ?_ fun _ => rfl
  exact map_modify_of_eq fun v hv => Prod.ext (hf v hv).1 (hf v hv).2

theorem isIndifferent : IsIndifferent Redraws where
  refl := refl
  trans := trans
  decorated := decorateView
  moved s id v line hv := modifyView s id fun v' hv' => by
    obtain rfl := Option.some.inj (hv.symm.trans hv')
    exact ⟨rfl, rfl⟩
  told emit e s := by
    obtain ⟨outside, edits, heq, hle, hpaid⟩ := Recorder.hear_eq emit e s
    exact ⟨s.views, outside, edits, heq, hle, hpaid,
      of_continues (Continues.of_eq rfl rfl rfl rfl rfl rfl) rfl rfl fun _ => rfl⟩
  aside _ _ _ _ _ _ _ :=
    of_continues (Continues.of_eq rfl rfl rfl rfl rfl rfl) rfl rfl fun _ => rfl

/-- To decorate all visible views draws them all. -/
theorem isDrawn_decorateVisible (hsubscribed : s.IsSubscribed) (hopen : s.ShowsOpen)
    (hid : id ∈ s.visible) : s.decorateVisible.IsDrawn id := by
  obtain ⟨s₁, hbefore, hafter⟩ := exists_step (s := s) refl trans hid fun s' id' _ _ =>
    decorateView s' id'
  have hdrawn := hbefore.trans (decorateView s₁ id)
  exact hafter.isDrawn (hsubscribed.of_signal_eq hdrawn.signal) (hdrawn.showsOpen hopen)
    (hdrawn.visible ▸ hid) (isDrawn_decorateView s₁ id)

variable {emit : Delivery PlainView Recorder} {depth : Nat}

theorem validate (hemit : Meets Redraws Redrawn depth emit) (h : 2 * s.budget + 1 ≤ depth)
    (p : Text) : Redraws s (s.validate emit p) := by
  have hposted (s : ObservedSession) (p : Text) (fs : List Finding) :
      Redraws s (s.withFindings p fs) :=
    of_continues (Continues.of_eq rfl rfl rfl rfl rfl rfl) rfl rfl fun _ => rfl
  cases hc : s.comparison? p with
  | none =>
    rw [validate_of_comparison?_eq_none hc]
    exact refl s
  | some c =>
    exact (hposted s p c.candidate).trans (isIndifferent.posted hemit h hc fun _ _ => hposted _ _ _)

/-- A document that is opened is shown nowhere yet, and one that changes is drawn again. -/
theorem of_edit {edit : ObserverEdit} {e : Event} {documents : List Document} {p : Text}
    (hcauses : edit.Causes s e p documents) (h : Redraws { s with documents } s')
    (hredrawn : Redrawn e { s with documents } s') : Redraws s s' := by
  have hcontinues : Continues s { s with documents } := Continues.of_edit hcauses
  refine ⟨hcontinues.trans h.toContinues, h.visible, h.documents,
    fun {id} hsubscribed hopen hid hdrawn => ?_⟩
  have hopen' : ShowsOpen { s with documents } := fun v hv q hq => by
    obtain ⟨d, hd⟩ := hopen v hv q hq
    obtain ⟨d', hd', -⟩ := hcontinues.isOpen hd
    exact ⟨d', hd'⟩
  rcases hcauses.event with he | he
  · refine h.isDrawn hsubscribed hopen' hid (hdrawn.congr rfl fun v q hv hq => ?_)
    -- what a view shows was open before, and is not the document that is opened now
    refine hcauses.others q ?_
    rintro rfl
    obtain ⟨d, hd⟩ := hopen v (List.mem_of_getElem? hv) q hq
    rw [hcauses.isNew he] at hd
    simp at hd
  · subst he
    exact hredrawn hsubscribed hopen' (Or.inl rfl) id hid

theorem isKept : IsKept Redraws Redrawn where
  toIsIndifferent := isIndifferent
  validate p hemit h := validate hemit h p
  edit edit hemit h := isIndifferent.edit hemit h edit of_edit

/-- The session draws the views in its turn, and what is drawn stays so. -/
theorem redrawn_callSubscribers {e : Event} (hemit : Meets Redraws Redrawn depth emit)
    (h : need e s ≤ depth + 1) : Redrawn e s (s.callSubscribers emit e) := by
  intro hsubscribed hopen he id hid
  have hreaction {l : Listener} (hl : ⟨e.topic, l⟩ ∈ ownInterests) :=
    isKept.exists_reaction (fun s' interest hs' =>
      isKept.react hemit interest.listener e (Nat.le_trans (hs'.1.need_le e) h))
      (fun _ hs' => hs'.signal) (hsubscribed _ hl)
  -- whatever is drawn in the middle of the event is drawn at its end
  have hend {drawn : ObservedSession} (hbefore : Redraws s drawn)
      (hafter : Redraws drawn.decorateVisible (s.callSubscribers emit e)) :
      (s.callSubscribers emit e).IsDrawn id := by
    have hdecorated := hbefore.trans (isKept.decorateVisible drawn).2
    refine hafter.isDrawn (hsubscribed.of_signal_eq hdecorated.signal)
      (hdecorated.showsOpen hopen) (hdecorated.visible ▸ hid) ?_
    exact isDrawn_decorateVisible (hsubscribed.of_signal_eq hbefore.signal)
      (hbefore.showsOpen hopen) (hbefore.visible ▸ hid)
  cases e with
  | changed p =>
    obtain ⟨s₁, hs₁, hrest⟩ := hreaction (l := .validation) (by simp [ownInterests, Event.topic])
    have hle : 2 * s₁.budget + 2 ≤ depth + 1 := Nat.le_trans (hs₁.1.need_le (.changed p)) h
    exact hend (hs₁.2.trans (validate hemit (by omega) p)) hrest.2
  | activated view =>
    obtain ⟨s₁, hs₁, hrest⟩ := hreaction (l := .decoration) (by simp [ownInterests, Event.topic])
    exact hend hs₁.2 hrest.2
  | shown views =>
    obtain ⟨s₁, hs₁, hrest⟩ := hreaction (l := .decoration) (by simp [ownInterests, Event.topic])
    exact hend hs₁.2 hrest.2
  | _ => simp [Event.topic] at he

theorem meets_emit (depth : Nat) : Meets Redraws Redrawn depth Session.emit :=
  isKept.meets_emit redrawn_callSubscribers depth

end Redraws

/-! ## Every visible view is drawn -/

/-- Views show open documents, and those that are visible are there and drawn. -/
structure IsPresented (s : ObservedSession) : Prop where
  showsOpen : s.ShowsOpen
  visible : ∀ id ∈ s.visible, id < s.views.length
  isDrawn : ∀ id ∈ s.visible, s.IsDrawn id

theorem IsPresented.redraws (hs : s.IsPresented) (hsubscribed : s.IsSubscribed)
    (h : Redraws s s') : s'.IsPresented := by
  refine ⟨h.showsOpen hs.showsOpen, fun id hid => ?_, fun id hid => ?_⟩
  · rw [h.length]
    exact hs.visible id (h.visible ▸ hid)
  · have hid' : id ∈ s.visible := h.visible ▸ hid
    exact h.isDrawn hsubscribed hs.showsOpen hid' (hs.isDrawn id hid')

/-- A view that is added is not visible yet. -/
theorem IsPresented.addView (hs : s.IsPresented) {v : PlainView}
    (hv : ∀ p, v.document = some p → ∃ d, s.document? p = some d) :
    IsPresented { s with views := s.views ++ [v] } where
  showsOpen v' hmem := by
    rcases List.mem_append.1 hmem with hold | hnew
    · exact hs.showsOpen v' hold
    · exact List.mem_singleton.1 hnew ▸ hv
  visible id hid := by
    show id < (s.views ++ [v]).length
    rw [List.length_append]
    exact Nat.lt_add_right 1 (hs.visible id hid)
  isDrawn id hid := by
    refine (hs.isDrawn id hid).congr ?_ fun _ _ _ _ => rfl
    show ((s.views ++ [v])[id]?.map _) = _
    rw [List.getElem?_append_left (hs.visible id hid)]

/-- Where the news of views or of a change is delivered, the views need not have been drawn. -/
theorem isPresented_emit {e : Event} (hsubscribed : s.IsSubscribed) (hopen : s.ShowsOpen)
    (hvisible : ∀ id ∈ s.visible, id < s.views.length)
    (he : e.topic = .changed ∨ e.topic = .activated ∨ e.topic = .shown) :
    (Session.emit e s).IsPresented := by
  have hredraws := (Redraws.meets_emit (need e s)).keeps (Nat.le_refl (need e s))
  have hredrawn := (Redraws.meets_emit (need e s)).settles (Nat.le_refl (need e s))
  refine ⟨hredraws.showsOpen hopen, fun id hid => ?_, fun id hid => ?_⟩
  · rw [hredraws.length]
    exact hvisible id (hredraws.visible ▸ hid)
  · exact hredrawn hsubscribed hopen he id (hredraws.visible ▸ hid)

theorem isPresented_start {s₀ : ObservedSession} (hopen : s₀.ShowsOpen)
    (hvisible : ∀ id ∈ s₀.visible, id < s₀.views.length) :
    (s₀.start Session.emit).IsPresented := by
  have hvalidated := Redraws.isKept.validations Redraws.meets_emit s₀
  have hstarted := Redraws.isKept.start Redraws.meets_emit s₀
  refine ⟨hstarted.showsOpen hopen, fun id hid => ?_, fun id hid => ?_⟩
  · rw [hstarted.length]
    exact hvisible id (hstarted.visible ▸ hid)
  · rw [start_eq]
    exact Redraws.isDrawn_decorateVisible
      ((isSubscribed_begun s₀).of_signal_eq hvalidated.signal) (hvalidated.showsOpen hopen)
      (hvalidated.visible ▸ hstarted.visible ▸ hid)

theorem Reachable.isPresented {s₀ : ObservedSession} (hrun : s₀.overrun = false)
    (hopen : s₀.ShowsOpen) (hvisible : ∀ id ∈ s₀.visible, id < s₀.views.length)
    (h : Reachable s₀ s) : s.IsPresented := by
  have hsubscribed {s : ObservedSession} (hs : Reachable s₀ s) := (hs.isRunning hrun).isSubscribed
  induction h with
  | start => exact isPresented_start hopen hvisible
  | edit edit hs ih =>
    exact ih.redraws (hsubscribed hs)
      (Redraws.isKept.edit edit (Redraws.meets_emit _) (Nat.le_refl _))
  | setVisible views hs hviews ih =>
    have hsubscribed := hsubscribed hs
    exact isPresented_emit hsubscribed ih.showsOpen hviews (Or.inr (Or.inr rfl))
  | setActive view hs ih =>
    have hsubscribed := hsubscribed hs
    unfold Session.setActive
    split
    · exact ih
    · exact isPresented_emit hsubscribed ih.showsOpen ih.visible (Or.inr (Or.inl rfl))
  | addView v hs hv ih => exact ih.addView hv
  | place id column top hs ih =>
    exact ih.redraws (hsubscribed hs) (Redraws.modifyView _ id fun _ _ => ⟨rfl, rfl⟩)
  | scroll view line hs ih =>
    exact ih.redraws (hsubscribed hs) ((Redraws.meets_emit _).keeps (Nat.le_refl _))
  | toggleLinkedScroll hs ih => exact ⟨ih.showsOpen, ih.visible, ih.isDrawn⟩
  | release hs ih =>
    unfold Session.release
    split
    · exact ih
    · exact ⟨ih.showsOpen, ih.visible, ih.isDrawn⟩
  | listen topic hs ih => exact ⟨ih.showsOpen, ih.visible, ih.isDrawn⟩

/--
**Every visible view that has a document is decorated as the document's present text,** whatever has
been edited, by whom, and whichever views have been shown.
-/
theorem decorations_current {s₀ : ObservedSession} (hrun : s₀.overrun = false)
    (hopen : s₀.ShowsOpen) (hvisible : ∀ id ∈ s₀.visible, id < s₀.views.length)
    (h : Reachable s₀ s) (handles : StyleHandles) :
    s.overrun = false ∧ ∀ id ∈ s.visible, ∃ v, s.views[id]? = some v ∧ ∀ p, v.document = some p →
      ∃ d, s.document? p = some d ∧ v.decorations = some (decorate d.text handles).1 := by
  refine ⟨(h.isRunning hrun).overrun, fun id hid => ?_⟩
  have hpresented := h.isPresented hrun hopen hvisible
  obtain ⟨v, hv⟩ : ∃ v, s.views[id]? = some v :=
    ⟨_, List.getElem?_eq_getElem (hpresented.visible id hid)⟩
  refine ⟨v, hv, fun p hp => ?_⟩
  obtain ⟨d, hd⟩ := hpresented.showsOpen v (List.mem_of_getElem? hv) p hp
  refine ⟨d, hd, ?_⟩
  rw [Decoration.decorate_fst]
  exact hpresented.isDrawn id hid v p d hv hp hd

/-- An object with one member, whose value is colored. -/
def coloredMember : Text := "\x7b\"a\": \"§cRed\"\x7d"

/-- A view shows that object before the session starts. When another document is opened, the
observers empty the object. -/
def staged : ObservedSession :=
  { observed [[], [], [.updateDocument "ko_kr.json" "\x7b\x7d"]] with
    documents := [.new "ko_kr.json" coloredMember]
    views := [{ document := some "ko_kr.json" }]
    visible := [0] }

theorem decorations_current_staged :
    let s := staged.start Session.emit
    let s' := (ObserverEdit.openDocument "ja_jp.json" "\x7b\x7d").perform Session.emit s
    s.views[0]?.bind (·.decorations) = some (decorate coloredMember {}).1 ∧
      (decorate coloredMember {}).1 ≠ [] ∧ s'.views[0]?.bind (·.decorations) = some [] := by
  intro s s'
  have hopen : staged.ShowsOpen := by
    intro v hv p hp
    obtain rfl := List.mem_singleton.1 hv
    obtain rfl := Option.some.inj hp
    exact ⟨.new "ko_kr.json" coloredMember, rfl⟩
  have hvisible : ∀ id ∈ staged.visible, id < staged.views.length := by decide
  have hdrawn {t : ObservedSession} {text : Text} (ht : Reachable staged t) (hid : 0 ∈ t.visible)
      (hview : t.viewDocument? 0 = some "ko_kr.json")
      (htext : (t.document? "ko_kr.json").map (·.text) = some text) :
      t.views[0]?.bind (·.decorations) = some (decorate text {}).1 := by
    obtain ⟨v, hv, hdecorated⟩ := (decorations_current rfl hopen hvisible ht {}).2 0 hid
    have hp : v.document = some "ko_kr.json" := by
      rw [← hview, viewDocument?, hv]
      rfl
    obtain ⟨d, hd, hdecorations⟩ := hdecorated "ko_kr.json" hp
    rw [hv]
    rw [hd] at htext
    rw [← Option.some.inj htext]
    exact hdecorations
  have hbefore : s.views[0]?.bind (·.decorations) = some (decorate coloredMember {}).1 :=
    hdrawn .start (by decide +kernel) (by decide +kernel) (by decide +kernel)
  have hafter : s'.views[0]?.bind (·.decorations) = some (decorate "\x7b\x7d" {}).1 :=
    hdrawn (.edit _ .start) (by decide +kernel) (by decide +kernel) (by decide +kernel)
  exact ⟨hbefore, by decide +kernel, hafter⟩

end LangFile.Session
