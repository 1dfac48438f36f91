import LangFile.Proofs.Session.Currency
import LangFile.Session.Commands

/-!
# Runs of a session

What is done to a session from outside, one operation after another, and what holds of the session
between them. Only previews and new listeners change what listens, and only a change of the disk
changes the disk; all else comes of the events that an operation causes.

1. What an operation does (`Proceeds`, `proceeds_perform`).
2. A session that listens goes on listening, whatever is done to it (`isListening_run`).
3. From its start on, the findings are up to date while the disk does not change
   (`isUpToDate_start`, `isUpToDate_run`).
-/

namespace LangFile

/-- What is done to a session from outside. -/
inductive Operation (V E : Type)
  | edit (edit : ObserverEdit)
  | setVisible (views : List ViewId)
  | setActive (view : Option ViewId)
  /-- A view reports that another text is selected. -/
  | select (view : ViewId)
  /-- A view reports that it has been scrolled. -/
  | scroll (view : ViewId) (line : Int)
  | toggleLinkedScroll
  | runPending
  | openPreview (format : PreviewFormat)
  | closePreview (id : PreviewId)
  /-- The surroundings subscribe to a topic. -/
  | listen (topic : Topic)
  /-- The surroundings change, and the views with them. -/
  | surround (views : List V) (outside : E)
  | changeDisk (disk : Disk)

/-- Does what is to be done. -/
def Operation.perform {V E : Type} [Host V E] (s : Session V E) :
    Operation V E → Session V E
  | edit e => e.perform Session.emit s
  | setVisible views => s.setVisible Session.emit views
  | setActive view => s.setActive Session.emit view
  | select view => Session.emit (.selected view) s
  | scroll view line => Session.emit (.scrolled view line) s
  | toggleLinkedScroll => s.toggleLinkedScroll.1
  | runPending => s.runPending
  | openPreview format => (s.openPreview format).1
  | closePreview id => s.closePreview id
  | listen topic => s.subscribe topic .outside
  | surround views outside => { s with views, outside }
  | changeDisk disk => { s with disk }

namespace Session

variable {V E : Type} {s s' : Session V E}

/-- Does one thing after another. -/
def run [Host V E] (ops : List (Operation V E)) (s : Session V E) : Session V E :=
  ops.foldl Operation.perform s

/-- The session has not posted anything, and its previews have the subscriptions that they say. -/
structure IsNew (s : Session V E) : Prop where
  diagnostics : s.diagnostics = []
  overrun : s.overrun = false
  subscribed : ∀ preview ∈ s.previews, ∀ id ∈ preview.subscriptions, id < s.signal.next

/-- The session validates what is edited. The findings about every document that is not also a
reference are those of its text, and there are no findings but about documents and references. -/
structure IsUpToDate (s : Session V E) : Prop where
  isListening : s.IsListening
  overrun : s.overrun = false
  current {p : Text} : ¬ s.IsReference p → s.IsCurrent p
  posted {p : Text} : p ∈ s.diagnostics.map (·.1) → s.IsPosted p

theorem IsUpToDate.updates (hs : s.IsUpToDate) (h : Updates s s') : s'.IsUpToDate where
  isListening := h.isListening_iff.2 hs.isListening
  overrun := h.overrun.trans hs.overrun
  current hnot :=
    h.current hs.isListening hnot (hs.current fun hreference => hnot (h.isReference hreference))
  posted hp := by
    rcases h.posted hp with hold | hposted
    · exact h.isPosted (hs.posted hold)
    · exact hposted

/-- Events happen; then what listens may change, but the session itself listens on. -/
inductive Proceeds (s : Session V E) : Session V E → Prop
  | events {s' : Session V E} : Updates s s' → Proceeds s s'
  | listeners (s' : Session V E) (signal : Signal Interest) (previews : List PreviewState)
    (nextPreview : PreviewId) : Updates s s' →
    (∀ topic, s'.HearsOf topic → { s' with signal, previews, nextPreview }.HearsOf topic) →
    Proceeds s { s' with signal, previews, nextPreview }

namespace Proceeds

theorem isListening (h : Proceeds s s') (hs : s.IsListening) : s'.IsListening := by
  cases h with
  | events hupdates => exact hupdates.isListening_iff.2 hs
  | listeners _ _ _ _ hupdates hears =>
    have hs' := hupdates.isListening_iff.2 hs
    exact ⟨hears _ hs'.opened, hears _ hs'.changed⟩

/-- What documents are compared with stays. -/
theorem sources (h : Proceeds s s') :
    s'.disk = s.disk ∧ s'.referenceName = s.referenceName := by
  cases h with
  | events hupdates => exact ⟨hupdates.disk, hupdates.referenceName⟩
  | listeners _ _ _ _ hupdates => exact ⟨hupdates.disk, hupdates.referenceName⟩

theorem isUpToDate (h : Proceeds s s') (hs : s.IsUpToDate) : s'.IsUpToDate := by
  have hlistening := h.isListening hs.isListening
  cases h with
  | events hupdates => exact hs.updates hupdates
  | listeners _ _ _ _ hupdates =>
    have hs' := hs.updates hupdates
    exact ⟨hlistening, hs'.overrun, hs'.current, hs'.posted⟩

end Proceeds

/-! ## Subscriptions -/

theorem mem_unsubscribeAll {ids : List Nat} {sub : Subscription Interest} :
    sub ∈ (s.unsubscribeAll ids).signal.subscriptions
      ↔ sub ∈ s.signal.subscriptions ∧ sub.id ∉ ids := by
  show sub ∈ (ids.foldl Signal.unsubscribe s.signal).subscriptions ↔ _
  induction ids generalizing s with
  | nil => simp
  | cons id ids ih =>
    rw [List.foldl_cons, ih (s := { s with signal := s.signal.unsubscribe id })]
    simp only [Signal.unsubscribe, List.mem_filter, List.mem_cons, not_or, ne_eq,
      decide_eq_true_eq, and_assoc]

theorem next_unsubscribeAll (s : Session V E) (ids : List Nat) :
    (s.unsubscribeAll ids).signal.next = s.signal.next := by
  show (ids.foldl Signal.unsubscribe s.signal).next = _
  induction ids generalizing s with
  | nil => rfl
  | cons id ids ih => exact ih { s with signal := s.signal.unsubscribe id }

theorem HearsOf.subscribe {topic : Topic} (h : s.HearsOf topic) (topic' : Topic) (l : Listener) :
    (s.subscribe topic' l).HearsOf topic := by
  obtain ⟨sub, hsub, hlistener, hnext, hpreviews⟩ := h
  exact ⟨sub, List.mem_append_left _ hsub, hlistener, Nat.lt_succ_of_lt hnext, hpreviews⟩

theorem proceeds_closePreview (id : PreviewId) (s : Session V E) :
    Proceeds s (s.closePreview id) := by
  unfold closePreview
  split
  · exact .events (Updates.refl s)
  · next preview hpreview =>
    refine .listeners s _ _ _ (Updates.refl s) fun topic hears => ?_
    obtain ⟨sub, hsub, hlistener, hnext, hpreviews⟩ := hears
    have hopen : preview ∈ s.previews := List.mem_of_find?_eq_some hpreview
    refine ⟨sub, mem_unsubscribeAll.2 ⟨hsub, hpreviews preview hopen⟩, hlistener, ?_,
      fun other hother => hpreviews other (List.mem_filter.1 hother).1⟩
    rw [next_unsubscribeAll]
    exact hnext

/-- The session once it has begun to listen. -/
def begun (s : Session V E) : Session V E :=
  { s with
    signal := ownInterests.foldl Signal.subscribe s.signal
    own := s.nextIds ownInterests.length }

theorem isListening_begun (h : s.IsNew) : s.begun.IsListening := by
  have hpreviews : s.begun.previews = s.previews := rfl
  have hnext : s.begun.signal.next = s.signal.next + 5 := rfl
  have hheard (i : Nat) (topic : Topic) (hi : i < 5)
      (hmem : ⟨s.signal.next + i, ⟨topic, .validation⟩⟩ ∈ s.begun.signal.subscriptions) :
      s.begun.HearsOf topic := by
    have hlt : s.signal.next + i < s.begun.signal.next := by omega
    refine ⟨_, hmem, rfl, hlt, fun preview hpreview hid => ?_⟩
    have hold : s.signal.next + i < s.signal.next :=
      h.subscribed preview (hpreviews ▸ hpreview) _ hid
    omega
  exact ⟨hheard 0 .opened (by decide) (by simp [begun, ownInterests, Signal.subscribe]),
    hheard 1 .changed (by decide) (by simp [begun, ownInterests, Signal.subscribe])⟩

variable [Host V E] [Host.Orderly V E]

/-! ## Operations -/

theorem updates_validate_emit (p : Text) (s : Session V E) :
    Updates s (s.validate Session.emit p) :=
  updates_validate (meets_emit_updates (2 * s.budget + 1)) (Nat.le_refl _) p

theorem updates_emit (e : Event) (s : Session V E) : Updates s (Session.emit e s) :=
  (meets_emit_updates (need e s)).keeps (Nat.le_refl _)

theorem updates_edit_emit (edit : ObserverEdit) (s : Session V E) :
    Updates s (edit.perform Session.emit s) :=
  updates_edit (meets_emit_updates (2 * s.budget + 2)) (Nat.le_refl _) edit

theorem proceeds_openPreview (format : PreviewFormat) (s : Session V E) :
    Proceeds s (s.openPreview format).1 := by
  unfold openPreview
  split
  · exact .events (Updates.refl s)
  · next view _ =>
    have hshown := (isKept_updates.showOutput s s.nextPreview view format).2
    dsimp only
    generalize s.showOutput s.nextPreview view format = shown at hshown ⊢
    refine .listeners shown _ _ _ hshown fun topic hears => ?_
    obtain ⟨sub, hsub, hlistener, hnext, hpreviews⟩ := hears
    refine ⟨sub, List.mem_append_left _ (List.mem_append_left _ hsub), hlistener,
      Nat.lt_succ_of_lt (Nat.lt_succ_of_lt hnext), fun preview hpreview => ?_⟩
    rcases List.mem_append.1 hpreview with hold | hnew
    · exact hpreviews preview hold
    · obtain rfl := List.mem_singleton.1 hnew
      show sub.id ∉ s.nextIds 2
      rw [hshown.signal] at hnext
      simp only [nextIds, List.mem_map, not_exists, not_and]
      intro i _ hi
      omega

/-- **What an operation does,** other than one of the disk. -/
theorem proceeds_perform (op : Operation V E) (hdisk : ∀ disk, op ≠ .changeDisk disk)
    (s : Session V E) : Proceeds s (op.perform s) := by
  cases op with
  | edit edit => exact .events (updates_edit_emit edit s)
  | setVisible views =>
    have hset : Updates s { s with visible := views } := .of_eq rfl rfl rfl rfl rfl rfl rfl
    exact .events (hset.trans (updates_emit _ _))
  | setActive view =>
    have hset : Updates s { s with active := view } := .of_eq rfl rfl rfl rfl rfl rfl rfl
    refine .events ?_
    show Updates s (s.setActive Session.emit view)
    unfold setActive
    exact iteInduction (fun _ => Updates.refl s) fun _ => hset.trans (updates_emit _ _)
  | select view => exact .events (updates_emit _ s)
  | scroll view line => exact .events (updates_emit _ s)
  | toggleLinkedScroll => exact .events (.of_eq rfl rfl rfl rfl rfl rfl rfl)
  | runPending =>
    refine .events ?_
    show Updates s s.runPending
    unfold runPending
    exact iteInduction (fun _ => Updates.refl s) fun _ => .of_eq rfl rfl rfl rfl rfl rfl rfl
  | openPreview format => exact proceeds_openPreview format s
  | closePreview id => exact proceeds_closePreview id s
  | listen topic =>
    exact .listeners s _ _ _ (Updates.refl s) fun topic' hears => hears.subscribe topic .outside
  | surround views outside => exact .events (.of_eq rfl rfl rfl rfl rfl rfl rfl)
  | changeDisk disk => exact absurd rfl (hdisk disk)

/-! ## The start -/

omit [Host.Orderly V E] in
theorem start_eq (emit : Delivery V E) (s : Session V E) :
    s.start emit
      = (s.documents.foldl (fun s d => s.validate emit d.path) s.begun).decorateVisible := by
  have hbegun : { ownInterests.foldl (fun s i => s.subscribe i.topic i.listener) s with
      own := s.nextIds ownInterests.length } = s.begun := by
    simp only [ownInterests, List.foldl_cons, List.foldl_nil, subscribe, begun]
  unfold start
  dsimp only
  rw [hbegun]
  rfl

section

variable {keeps : Session V E → Session V E → Prop}
  {settles : Event → Session V E → Session V E → Prop}

/-- What each thing done in the course of a delivery keeps, the first passes keep. -/
theorem IsKept.validations (hkept : IsKept keeps settles)
    (hemit : ∀ depth, Meets keeps settles depth Session.emit) (s : Session V E) :
    keeps s.begun (s.documents.foldl (fun s d => s.validate Session.emit d.path) s.begun) :=
  foldl_induction hkept.refl hkept.trans s.documents s.begun fun s' d _ _ =>
    hkept.validate d.path (hemit (2 * s'.budget + 1)) (Nat.le_refl _)

theorem IsKept.start (hkept : IsKept keeps settles)
    (hemit : ∀ depth, Meets keeps settles depth Session.emit) (s : Session V E) :
    keeps s.begun (s.start Session.emit) := by
  rw [start_eq]
  exact hkept.trans (hkept.validations hemit s) (hkept.decorateVisible _).2

/-- A document that is open at the start is validated in its turn. -/
theorem IsKept.exists_pass_start (hkept : IsKept keeps settles)
    (hemit : ∀ depth, Meets keeps settles depth Session.emit) {d : Document}
    (hd : d ∈ s.documents) :
    ∃ s₁, keeps s.begun s₁ ∧ keeps (s₁.validate Session.emit d.path) (s.start Session.emit) := by
  obtain ⟨s₁, hbefore, hafter⟩ := exists_step (s := s.begun) hkept.refl hkept.trans hd
    fun s' d' _ _ => hkept.validate d'.path (hemit (2 * s'.budget + 1)) (Nat.le_refl _)
  rw [start_eq]
  exact ⟨s₁, hbefore, hkept.trans hafter (hkept.decorateVisible _).2⟩

/-- What each thing done in the course of a delivery keeps, edits keep. -/
theorem IsKept.edits_emit (hkept : IsKept keeps settles)
    (hemit : ∀ depth, Meets keeps settles depth Session.emit) (edits : List ObserverEdit)
    (s : Session V E) : keeps s (edits.foldl (fun s edit => edit.perform Session.emit s) s) :=
  foldl_induction hkept.refl hkept.trans edits s fun s' edit _ _ =>
    hkept.edit edit (hemit (2 * s'.budget + 2)) (Nat.le_refl _)

end

theorem updates_start (s : Session V E) : Updates s.begun (s.start Session.emit) :=
  isKept_updates.start meets_emit_updates s

theorem isCurrent_start {d : Document} (h : s.IsNew) (hd : d ∈ s.documents)
    (hnot : ¬ (s.start Session.emit).IsReference d.path) :
    (s.start Session.emit).IsCurrent d.path := by
  obtain ⟨s₁, hbefore, hend⟩ := isKept_updates.exists_pass_start meets_emit_updates hd
  have hlistening₁ := hbefore.isListening_iff.2 (isListening_begun h)
  refine hend.current ((updates_validate_emit d.path s₁).isListening_iff.2 hlistening₁) hnot ?_
  exact isCurrent_validate (meets_emit_updates (2 * s₁.budget + 1)) (Nat.le_refl _) hlistening₁
    fun hreference => hnot (hend.isReference hreference)

/-- **From its start on the findings are up to date.** -/
theorem isUpToDate_start (h : s.IsNew) : (s.start Session.emit).IsUpToDate := by
  have hupdates := updates_start s
  have hlistening := isListening_begun h
  refine ⟨hupdates.isListening_iff.2 hlistening, hupdates.overrun.trans h.overrun,
    fun {p} hnot => ?_, fun {p} hp => ?_⟩
  · cases hd : s.begun.document? p with
    | none =>
      -- a document that listeners open in the course of the start is validated when it is opened
      refine hupdates.current hlistening hnot fun c hc => ?_
      obtain ⟨d, hd', -⟩ := comparison?_eq_some_iff.1 hc
      rw [hd] at hd'
      simp at hd'
    | some d =>
      obtain rfl := path_of_document? hd
      have hmem : d ∈ s.begun.documents := mem_of_document? hd
      exact isCurrent_start h hmem hnot
  · rcases hupdates.posted hp with hold | hposted
    · have hnone : s.begun.diagnostics = [] := h.diagnostics
      rw [hnone] at hold
      simp at hold
    · exact hposted

/-! ## Runs -/

/-- The session itself listens on, whatever is done. -/
theorem isListening_run (ops : List (Operation V E)) (h : s.IsListening) :
    (run ops s).IsListening := by
  refine List.foldlRecOn ops Operation.perform h fun s hs op _ => ?_
  by_cases hdisk : ∃ disk, op = .changeDisk disk
  · obtain ⟨disk, rfl⟩ := hdisk
    exact ⟨hs.opened, hs.changed⟩
  · exact (proceeds_perform op (fun disk hop => hdisk ⟨disk, hop⟩) s).isListening hs

theorem proceeds_of_mem {ops : List (Operation V E)} (hdisk : ∀ disk, .changeDisk disk ∉ ops)
    {op : Operation V E} (hop : op ∈ ops) (s : Session V E) : Proceeds s (op.perform s) := by
  refine proceeds_perform op ?_ s
  rintro disk rfl
  exact hdisk disk hop

/-- What documents are compared with stays, while no operation changes the disk. -/
theorem sources_run (ops : List (Operation V E)) (hdisk : ∀ disk, .changeDisk disk ∉ ops)
    (s : Session V E) :
    (run ops s).disk = s.disk ∧ (run ops s).referenceName = s.referenceName := by
  refine List.foldlRecOn (motive := fun s' : Session V E =>
      s'.disk = s.disk ∧ s'.referenceName = s.referenceName) ops Operation.perform ⟨rfl, rfl⟩ ?_
  rintro s' ⟨hs, hname⟩ op hop
  have hsame := (proceeds_of_mem hdisk hop s').sources
  exact ⟨hsame.1.trans hs, hsame.2.trans hname⟩

/-- **The findings stay up to date** while no operation changes the disk. -/
theorem isUpToDate_run (ops : List (Operation V E)) (hdisk : ∀ disk, .changeDisk disk ∉ ops)
    (h : s.IsUpToDate) : (run ops s).IsUpToDate :=
  List.foldlRecOn ops Operation.perform h fun s hs _ hop =>
    (proceeds_of_mem hdisk hop s).isUpToDate hs

end Session

end LangFile
