import LangFile.Proofs.Session.Observation
import LangFile.Proofs.Signal.History

/-!
# Sessions among actors

Surroundings that do anything that can be done to a session, in the middle of any event: at each
event that they hear they act as their plan says. So any finite behaviour of outside listeners can be
laid down, which may open and close previews, and start and stop the session, while it is told of
something.

1. What is done (`Act`), and what is noted of it in the course of deliveries (`recordNested`).
2. A recorded course leaves the same session as one that is not recorded (`alike_course`).
3. What all acts keep (`IsSteady`).
-/

namespace LangFile

/-- What is noted beside subscriptions and events. -/
inductive Mark
  | opened (id : PreviewId) (view : ViewId) (format : PreviewFormat)
  | closed (id : PreviewId)
  | stopped
  /-- The surroundings ended a subscription of theirs. -/
  | ignored (id : Nat)
  /-- An event was left out, as deliveries nest too deep. -/
  | lost (e : Event)

namespace Session

/-- What happened, with the signal and the views right after it. -/
structure Moment where
  happening : Happening Event Interest Mark
  signal : Signal Interest
  views : List PlainView

end Session

/-- What is done to a session. To make a language file is to change the disk and a document. -/
inductive Act
  | edit (edit : ObserverEdit)
  | addView (v : PlainView)
  /-- Another text is selected in a view. -/
  | select (view : ViewId) (text : Text)
  /-- A view is moved to a column, and its text to a line. -/
  | place (view : ViewId) (column top : Int)
  | setVisible (views : List ViewId)
  | setActive (view : Option ViewId)
  /-- A view reports the line that it has been scrolled to. -/
  | scroll (view : ViewId) (line : Int)
  | toggleLinkedScroll
  | runPending
  | changeDisk (disk : Disk)
  /-- The surroundings subscribe to a topic. -/
  | listen (topic : Topic)
  /-- The surroundings end a subscription, if it is theirs. -/
  | ignore (id : Nat)
  | openPreview (format : PreviewFormat)
  | closePreview (id : PreviewId)
  /-- The session is started, unless it has been started before. -/
  | start
  | stop

/-- Surroundings with a plan: what they will do at the next events that they hear. They allow
deliveries to nest as deep as `room` says, and keep what is noted. They start the session once. -/
structure Actors where
  plan : List (List Act) := []
  room : Nat := 0
  started : Bool := false
  moments : List Session.Moment := []

namespace Session

/-! ## Notes -/

/-- Writes down what happens now. -/
def note (s : Session PlainView Actors) (x : Happening Event Interest Mark) :
    Session PlainView Actors :=
  { s with outside := { s.outside with moments := s.outside.moments ++ [⟨x, s.signal, s.views⟩] } }

/-- Writes down what happens at once. -/
def noteAll (s : Session PlainView Actors) (xs : List (Happening Event Interest Mark)) :
    Session PlainView Actors :=
  xs.foldl note s

/-- All that was noted. -/
def history (s : Session PlainView Actors) : History Event Interest Mark :=
  s.outside.moments.map (·.happening)

theorem noteAll_eq (s : Session PlainView Actors) (xs : List (Happening Event Interest Mark)) :
    s.noteAll xs
      = { s with outside := { s.outside with
          moments := s.outside.moments ++ xs.map fun x => ⟨x, s.signal, s.views⟩ } } := by
  induction xs generalizing s with
  | nil => rw [List.map_nil, List.append_nil]; rfl
  | cons x xs ih =>
    show (s.note x).noteAll xs = _
    rw [ih, List.map_cons, List.append_cons]
    rfl

/-! ## What is done -/

/-- The subscriptions that a new preview makes. -/
def previewSubscriptions (id : PreviewId) (next : Nat) : List (Subscription Interest) :=
  [⟨next, ⟨.changed, .preview id⟩⟩, ⟨next + 1, ⟨.selected, .preview id⟩⟩]

/-- The subscription of that number is one of the surroundings. -/
def isOutside (s : Session PlainView Actors) (id : Nat) : Bool :=
  s.signal.subscriptions.any fun sub => sub.id = id && sub.listener.listener = .outside

/-- Plain views, among surroundings that do nothing. -/
@[reducible]
def plainHost : Host PlainView Actors where
  document v := v.document
  column v := v.column
  selectedText v := some v.selection
  decorate spans v := { v with decorations := some spans }
  reveal line v :=
    ({ v with top := line, revealed := v.revealed ++ [line] }, if v.echo then some line else none)
  revealed _ _ _ s := s
  hear _ _ s := s
  nesting _ := 0

/-- The surroundings subscribe to a topic, and it is noted. -/
def listenNoted (topic : Topic) (s : Session PlainView Actors) : Session PlainView Actors :=
  (s.subscribe topic .outside).noteAll [.subscribed ⟨s.signal.next, ⟨topic, .outside⟩⟩]

/-- The surroundings end a subscription if it is theirs, and it is noted. -/
def ignoreNoted (id : Nat) (s : Session PlainView Actors) : Session PlainView Actors :=
  if s.isOutside id then (s.unsubscribeAll [id]).noteAll [.ended id, .noted (.ignored id)] else s

/-- Opens a preview of the active view, and notes it. -/
def openPreviewNoted (format : PreviewFormat) (s : Session PlainView Actors) :
    Session PlainView Actors :=
  let opened := (@openPreview _ _ plainHost format s).1
  match s.active with
  | none => opened
  | some view =>
    opened.noteAll (.noted (.opened s.nextPreview view format) ::
      (previewSubscriptions s.nextPreview s.signal.next).map .subscribed)

/-- Closes a preview, and notes it. -/
def closePreviewNoted (id : PreviewId) (s : Session PlainView Actors) :
    Session PlainView Actors :=
  match s.previews.find? fun p => p.id = id with
  | none => s
  | some p =>
    (s.closePreview id).noteAll (p.subscriptions.map .ended ++ [.noted (.closed id)])

/-- The subscriptions of the session itself. -/
def ownSubscriptions (next : Nat) : List (Subscription Interest) :=
  ownInterests.mapIdx fun i interest => ⟨next + i, interest⟩

/-- Starts the session for the first time, and notes whom it subscribes. -/
def startNoted (emit : Delivery PlainView Actors) (s : Session PlainView Actors) :
    Session PlainView Actors :=
  if s.outside.started then s
  else
    let ready := { s with outside := { s.outside with started := true } }
    @start _ _ plainHost emit
      (ready.noteAll ((ownSubscriptions s.signal.next).map .subscribed))

/-- Stops the session, and notes it. -/
def stopNoted (s : Session PlainView Actors) : Session PlainView Actors :=
  s.stop.noteAll ((s.own ++ s.previews.flatMap (·.subscriptions)).map .ended ++ [.noted .stopped])

end Session

open Session in
/-- Does what is to be done; what becomes of subscriptions and previews is noted. -/
def Act.perform (emit : Delivery PlainView Actors) (act : Act) (s : Session PlainView Actors) :
    Session PlainView Actors :=
  match act with
  | edit e => e.perform emit s
  | addView v => { s with views := s.views ++ [v] }
  | select view text =>
    emit (.selected view) (s.modifyView view fun v => { v with selection := text })
  | place view column top => s.modifyView view fun v => { v with column, top }
  | setVisible views => s.setVisible emit views
  | setActive view => s.setActive emit view
  | scroll view line => emit (.scrolled view line) s
  | toggleLinkedScroll => s.toggleLinkedScroll.1
  | runPending => s.runPending
  | changeDisk disk => { s with disk }
  | listen topic => s.listenNoted topic
  | ignore id => s.ignoreNoted id
  | openPreview format => s.openPreviewNoted format
  | closePreview id => s.closePreviewNoted id
  | start => s.startNoted emit
  | stop => s.stopNoted

/-- At each event that they hear the actors do what their plan holds for it. -/
instance instHostActors : Host PlainView Actors :=
  { Session.plainHost with
    revealed := fun emit id line s => emit (.scrolled id line) s
    hear := fun emit _ s =>
      (s.outside.plan.head?.getD []).foldl (fun s act => act.perform emit s)
        { s with outside := { s.outside with plan := s.outside.plan.tail } }
    nesting := fun actors => actors.room }

namespace Session

/-! ## Recorded deliveries -/

/-- A subscription has its turn in the delivery `k`. -/
def turn (emit : Delivery PlainView Actors) (k : Nat) (e : Event) (s : Session PlainView Actors)
    (sub : Subscription Interest) : Session PlainView Actors :=
  if s.signal.isActive sub.id then
    (s.note (.called k e sub)).react emit sub.listener.listener e
  else s.note (.skipped k e sub)

/-- Delivers an event as `emitNested` does, and writes down who has a turn. -/
def recordNested : (depth : Nat) → Delivery PlainView Actors
  | 0, e, s => { s with overrun := true }.note (.noted (.lost e))
  | depth + 1, e, s =>
    (s.subscribers e.topic).foldl (turn (recordNested depth) s.outside.moments.length e)
      (s.note (.emitted e))

/-- Delivers an event as `emit` does, and writes down who has a turn. -/
def record (e : Event) (s : Session PlainView Actors) : Session PlainView Actors :=
  recordNested s.outside.room e s

/-! ## Previews and the end of a session, in one step each -/

/-- What a preview of a view shows: the selection, or a space when nothing is selected. -/
def shownText (views : List PlainView) (view : ViewId) : Text :=
  match views[view]? with
  | none => " "
  | some v => if v.selection.isEmpty then " " else v.selection

theorem showOutput_eq (s : Session PlainView Actors) (id : PreviewId) (view : ViewId)
    (format : PreviewFormat) :
    s.showOutput id view format
      = { s with outputs := s.outputs ++ [(id, format.render (shownText s.views view))] } := by
  have htext : s.previewText? view = some (shownText s.views view) := by
    unfold previewText? shownText
    cases s.views[view]? <;> rfl
  unfold showOutput
  rw [htext]

theorem openPreview_eq (s : Session PlainView Actors) (format : PreviewFormat) {view : ViewId}
    (hactive : s.active = some view) :
    (@openPreview _ _ plainHost format s).1
      = { s with
          outputs := s.outputs ++ [(s.nextPreview, format.render (shownText s.views view))]
          signal := (s.signal.subscribe ⟨.changed, .preview s.nextPreview⟩).subscribe
            ⟨.selected, .preview s.nextPreview⟩
          previews := s.previews ++
            [⟨s.nextPreview, view, format, [s.signal.next, s.signal.next + 1]⟩]
          nextPreview := s.nextPreview + 1 } := by
  have hshown := showOutput_eq s s.nextPreview view format
  have hopened : (@openPreview _ _ plainHost format s).1
      = { ((s.showOutput s.nextPreview view format).subscribe .changed
            (.preview s.nextPreview)).subscribe .selected (.preview s.nextPreview) with
          previews := (s.showOutput s.nextPreview view format).previews ++
            [⟨s.nextPreview, view, format, s.nextIds 2⟩]
          nextPreview := s.nextPreview + 1 } := by
    unfold openPreview
    rw [hactive]
    rfl
  rw [hopened, hshown]
  rfl

theorem openPreviewNoted_of_none {s : Session PlainView Actors} (hactive : s.active = none)
    (format : PreviewFormat) : s.openPreviewNoted format = s := by
  unfold openPreviewNoted openPreview
  rw [hactive]

theorem openPreviewNoted_of_some {s : Session PlainView Actors} {view : ViewId}
    (hactive : s.active = some view) (format : PreviewFormat) :
    s.openPreviewNoted format = (@openPreview _ _ plainHost format s).1.noteAll
      (.noted (.opened s.nextPreview view format) ::
        (previewSubscriptions s.nextPreview s.signal.next).map .subscribed) := by
  unfold openPreviewNoted
  rw [hactive]

theorem closePreviewNoted_of_none {s : Session PlainView Actors} {id : PreviewId}
    (hfind : (s.previews.find? fun p => p.id = id) = none) : s.closePreviewNoted id = s := by
  unfold closePreviewNoted
  rw [hfind]

theorem closePreviewNoted_of_some {s : Session PlainView Actors} {id : PreviewId} {p : PreviewState}
    (hfind : (s.previews.find? fun p => p.id = id) = some p) :
    s.closePreviewNoted id
      = noteAll { s.unsubscribeAll p.subscriptions with
          previews := s.previews.filter fun q => q.id ≠ id }
        (p.subscriptions.map .ended ++ [.noted (.closed id)]) := by
  unfold closePreviewNoted closePreview
  rw [hfind]

theorem unsubscribeAll_append {V E : Type} (s : Session V E) (ids ids' : List Nat) :
    s.unsubscribeAll (ids ++ ids') = (s.unsubscribeAll ids).unsubscribeAll ids' := by
  unfold unsubscribeAll
  rw [List.foldl_append]

theorem stop_eq {V E : Type} (s : Session V E) :
    s.stop = { s.unsubscribeAll (s.own ++ s.previews.flatMap (·.subscriptions)) with
      own := [], previews := [] } := by
  have hpreviews (previews : List PreviewState) (s : Session V E) :
      previews.foldl (fun s p => s.unsubscribeAll p.subscriptions) s
        = s.unsubscribeAll (previews.flatMap (·.subscriptions)) := by
    induction previews generalizing s with
    | nil => rfl
    | cons p previews ih =>
      rw [List.foldl_cons, ih, List.flatMap_cons, unsubscribeAll_append]
  unfold stop
  rw [unsubscribeAll_append, ← hpreviews]
  rfl

/-! ## Recording changes nothing -/

/-- The session with other notes. -/
def withNotes (s : Session PlainView Actors) (moments : List Moment) : Session PlainView Actors :=
  { s with outside := { s.outside with moments } }

section

variable (s : Session PlainView Actors) (moments : List Moment)

theorem decorateView_withNotes (id : ViewId) :
    (s.withNotes moments).decorateView id = (s.decorateView id).withNotes moments := by
  have hdocument : ((s.withNotes moments).viewDocument? id).bind (s.withNotes moments).document?
      = (s.viewDocument? id).bind s.document? := rfl
  unfold decorateView
  rw [hdocument]
  cases (s.viewDocument? id).bind s.document? <;> rfl

theorem decorateVisible_withNotes :
    (s.withNotes moments).decorateVisible = s.decorateVisible.withNotes moments := by
  unfold decorateVisible
  exact List.foldl_hom (fun s : Session PlainView Actors => s.withNotes moments) fun s id =>
    decorateView_withNotes s moments id

theorem showOutput_withNotes (id : PreviewId) (view : ViewId) (format : PreviewFormat) :
    (s.withNotes moments).showOutput id view format
      = (s.showOutput id view format).withNotes moments := by
  have htext : (s.withNotes moments).previewText? view = s.previewText? view := rfl
  unfold showOutput
  rw [htext]
  cases s.previewText? view <;> rfl

theorem refreshPreview_withNotes (id : PreviewId) (e : Event) :
    (s.withNotes moments).refreshPreview id e = (s.refreshPreview id e).withNotes moments := by
  have hpreviews : (s.withNotes moments).previews = s.previews := rfl
  unfold refreshPreview
  rw [hpreviews]
  cases s.previews.find? fun p => p.id = id with
  | none => rfl
  | some p =>
    dsimp only
    rw [showOutput_withNotes, apply_ite (fun s : Session PlainView Actors => s.withNotes moments)]
    rfl

theorem openPreview_withNotes (format : PreviewFormat) :
    (@openPreview _ _ plainHost format (s.withNotes moments)).1
      = (@openPreview _ _ plainHost format s).1.withNotes moments := by
  cases hactive : s.active with
  | none =>
    unfold openPreview
    rw [hactive, show (s.withNotes moments).active = none from hactive]
  | some view =>
    rw [openPreview_eq s format hactive, openPreview_eq (s.withNotes moments) format hactive]
    rfl

theorem closePreview_withNotes (id : PreviewId) :
    (s.withNotes moments).closePreview id = (s.closePreview id).withNotes moments := by
  have hpreviews : (s.withNotes moments).previews = s.previews := rfl
  unfold closePreview
  rw [hpreviews]
  cases s.previews.find? fun p => p.id = id <;> rfl

theorem stop_withNotes : (s.withNotes moments).stop = s.stop.withNotes moments := by
  rw [stop_eq, stop_eq]
  rfl

end

/-- The sessions are the same but for what is noted. -/
def Alike (s s' : Session PlainView Actors) : Prop := ∃ moments, s' = s.withNotes moments

/-- Both deliveries do the same but for what they note. -/
def DeliverAlike (emit emit' : Delivery PlainView Actors) : Prop :=
  ∀ (e : Event) {s s' : Session PlainView Actors}, Alike s s' → Alike (emit e s) (emit' e s')

namespace Alike

variable {s s' s'' : Session PlainView Actors} {emit emit' : Delivery PlainView Actors}

theorem refl (s : Session PlainView Actors) : Alike s s := ⟨s.outside.moments, rfl⟩

/-- What does not look at the notes. -/
theorem of_withNotes {f : Session PlainView Actors → Session PlainView Actors}
    (hf : ∀ s moments, f (s.withNotes moments) = (f s).withNotes moments) (h : Alike s s') :
    Alike (f s) (f s') := by
  obtain ⟨moments, rfl⟩ := h
  exact ⟨moments, hf s moments⟩

theorem note (h : Alike s s') (x x' : Happening Event Interest Mark) :
    Alike (s.note x) (s'.note x') := by
  obtain ⟨_, rfl⟩ := h
  exact ⟨_, rfl⟩

theorem note_right (h : Alike s s') (x : Happening Event Interest Mark) : Alike s (s'.note x) := by
  obtain ⟨_, rfl⟩ := h
  exact ⟨_, rfl⟩

theorem ite {c : Prop} [Decidable c] {t t' : Session PlainView Actors} (h : Alike s s')
    (h' : Alike t t') : Alike (if c then s else t) (if c then s' else t') := by
  split
  · exact h
  · exact h'

theorem foldl {β : Type} {f f' : Session PlainView Actors → β → Session PlainView Actors}
    (hf : ∀ {s s'} x, Alike s s' → Alike (f s x) (f' s' x)) (l : List β) (h : Alike s s') :
    Alike (l.foldl f s) (l.foldl f' s') := by
  induction l generalizing s s' with
  | nil => exact h
  | cons x l ih => exact ih (hf x h)

theorem noteAll (h : Alike s s') (xs : List (Happening Event Interest Mark)) :
    Alike (s.noteAll xs) (s'.noteAll xs) :=
  foldl (fun x hs => hs.note x x) xs h

theorem endRound (h : Alike s s') :
    Alike
      (if s.deferred then { s with pending := s.pending + 1 }
        else { s with scroll := { s.scroll with inProgress := false } })
      (if s'.deferred then { s' with pending := s'.pending + 1 }
        else { s' with scroll := { s'.scroll with inProgress := false } }) := by
  obtain ⟨moments, rfl⟩ := h
  exact ite ⟨moments, rfl⟩ ⟨moments, rfl⟩

section

variable (hemit : DeliverAlike emit emit')

include hemit

theorem post (path : Text) (fs : List Finding) (h : Alike s s') :
    Alike (s.post emit path fs) (s'.post emit' path fs) := by
  obtain ⟨moments, rfl⟩ := h
  exact hemit (.diagnosed path) ⟨moments, rfl⟩

theorem validate (path : Text) (h : Alike s s') :
    Alike (s.validate emit path) (s'.validate emit' path) := by
  obtain ⟨moments, rfl⟩ := h
  have hcomparison : (s.withNotes moments).comparison? path = s.comparison? path := rfl
  unfold Session.validate
  rw [hcomparison]
  cases s.comparison? path with
  | none => exact ⟨moments, rfl⟩
  | some c => exact post hemit _ _ (post hemit _ _ ⟨moments, rfl⟩)

theorem reveal (id : ViewId) (line : Int) (h : Alike s s') :
    Alike (s.reveal emit id line) (s'.reveal emit' id line) := by
  obtain ⟨moments, rfl⟩ := h
  have hviews : (s.withNotes moments).views = s.views := rfl
  unfold Session.reveal
  rw [hviews]
  cases s.views[id]? with
  | none => exact ⟨moments, rfl⟩
  | some v =>
    dsimp only
    cases (Host.reveal Actors line v).2 with
    | none => exact ⟨moments, rfl⟩
    | some line => exact hemit (.scrolled id line) ⟨moments, rfl⟩

theorem inRound (source : ViewId) (line : Int) (id : ViewId) (h : Alike s s') :
    Alike
      (if id ≠ source && s.viewColumn id ≠ s.viewColumn source then s.reveal emit id line else s)
      (if id ≠ source && s'.viewColumn id ≠ s'.viewColumn source then s'.reveal emit' id line
        else s') := by
  have hrevealed := reveal hemit id line h
  obtain ⟨moments, rfl⟩ := h
  exact ite hrevealed ⟨moments, rfl⟩

theorem scrollLinked (source : ViewId) (line : Int) (h : Alike s s') :
    Alike (s.scrollLinked emit source line) (s'.scrollLinked emit' source line) := by
  obtain ⟨moments, rfl⟩ := h
  unfold Session.scrollLinked
  refine ite ⟨moments, rfl⟩ ?_
  exact endRound (foldl (fun id hs => inRound hemit source line id hs) s.visible ⟨moments, rfl⟩)

theorem edit (edit : ObserverEdit) (h : Alike s s') :
    Alike (edit.perform emit s) (edit.perform emit' s') := by
  obtain ⟨moments, rfl⟩ := h
  cases edit with
  | openDocument path text =>
    have hdocument (p : Text) : (s.withNotes moments).document? p = s.document? p := rfl
    unfold ObserverEdit.perform Session.openDocument
    dsimp only
    rw [hdocument]
    cases s.document? (Document.new path text).path with
    | none => exact hemit _ ⟨moments, rfl⟩
    | some d => exact ⟨moments, rfl⟩
  | updateDocument path text =>
    have hdocument : (s.withNotes moments).document? path = s.document? path := rfl
    unfold ObserverEdit.perform Session.updateDocument
    dsimp only
    rw [hdocument]
    cases s.document? path with
    | none => exact ⟨moments, rfl⟩
    | some d => exact ite ⟨moments, rfl⟩ (hemit _ ⟨moments, rfl⟩)

theorem startNoted (h : Alike s s') : Alike (s.startNoted emit) (s'.startNoted emit') := by
  obtain ⟨moments, rfl⟩ := h
  unfold Session.startNoted
  refine ite ⟨moments, rfl⟩ ?_
  show Alike (Session.start emit _) (Session.start emit' _)
  rw [start_eq, start_eq]
  refine of_withNotes decorateVisible_withNotes ?_
  rw [noteAll_eq, noteAll_eq]
  exact foldl (fun d hs => validate hemit d.path hs) _ ⟨_, rfl⟩

theorem perform (act : Act) (h : Alike s s') : Alike (act.perform emit s) (act.perform emit' s') := by
  cases act with
  | edit e => exact edit hemit e h
  | select view text =>
    refine hemit _ ?_
    obtain ⟨moments, rfl⟩ := h
    exact ⟨moments, rfl⟩
  | setVisible views =>
    refine hemit _ ?_
    obtain ⟨moments, rfl⟩ := h
    exact ⟨moments, rfl⟩
  | setActive view =>
    obtain ⟨moments, rfl⟩ := h
    unfold Act.perform Session.setActive
    exact ite ⟨moments, rfl⟩ (hemit _ ⟨moments, rfl⟩)
  | scroll view line => exact hemit _ h
  | runPending =>
    obtain ⟨moments, rfl⟩ := h
    unfold Act.perform Session.runPending
    exact ite ⟨moments, rfl⟩ ⟨moments, rfl⟩
  | listen topic =>
    obtain ⟨moments, rfl⟩ := h
    exact ⟨_, rfl⟩
  | ignore id =>
    obtain ⟨moments, rfl⟩ := h
    unfold Act.perform ignoreNoted
    exact ite ⟨_, rfl⟩ ⟨moments, rfl⟩
  | openPreview format =>
    have hopened := of_withNotes (f := fun s => (@openPreview _ _ plainHost format s).1)
      (fun s moments => openPreview_withNotes s moments format) h
    obtain ⟨moments, rfl⟩ := h
    unfold Act.perform openPreviewNoted
    have hactive : (s.withNotes moments).active = s.active := rfl
    dsimp only
    rw [hactive]
    cases s.active with
    | none => exact hopened
    | some view => exact hopened.noteAll _
  | closePreview id =>
    have hclosed := of_withNotes (fun s moments => closePreview_withNotes s moments id) h
    obtain ⟨moments, rfl⟩ := h
    unfold Act.perform closePreviewNoted
    have hpreviews : (s.withNotes moments).previews = s.previews := rfl
    dsimp only
    rw [hpreviews]
    cases s.previews.find? fun p => p.id = id with
    | none => exact ⟨moments, rfl⟩
    | some p => exact hclosed.noteAll _
  | start => exact startNoted hemit h
  | stop =>
    have hstopped := of_withNotes stop_withNotes h
    obtain ⟨moments, rfl⟩ := h
    exact hstopped.noteAll _
  | addView | place | toggleLinkedScroll | changeDisk =>
    obtain ⟨moments, rfl⟩ := h
    exact ⟨moments, rfl⟩

theorem hear (e : Event) (h : Alike s s') : Alike (Host.hear emit e s) (Host.hear emit' e s') := by
  obtain ⟨moments, rfl⟩ := h
  exact foldl (fun act hs => perform hemit act hs) _ ⟨moments, rfl⟩

theorem react (l : Listener) (e : Event) (h : Alike s s') :
    Alike (s.react emit l e) (s'.react emit' l e) := by
  cases l with
  | validation =>
    cases e with
    | opened path => exact validate hemit path h
    | changed path => exact of_withNotes decorateVisible_withNotes (validate hemit path h)
    | _ => exact h
  | decoration => exact of_withNotes decorateVisible_withNotes h
  | scrolling =>
    cases e with
    | scrolled id line => exact scrollLinked hemit id line h
    | _ => exact h
  | preview id => exact of_withNotes (fun s moments => refreshPreview_withNotes s moments id e) h
  | outside => exact hear hemit e h

end

end Alike

/-- **A recorded delivery does what the delivery does,** by induction on the nesting. -/
theorem deliverAlike_recordNested (depth : Nat) :
    DeliverAlike (emitNested depth) (recordNested depth) := by
  induction depth with
  | zero =>
    intro e s s' h
    obtain ⟨moments, rfl⟩ := h
    exact ⟨_, rfl⟩
  | succ depth ih =>
    intro e s s' h
    have hsubscribers : s'.subscribers e.topic = s.subscribers e.topic := by
      obtain ⟨moments, rfl⟩ := h
      rfl
    show Alike ((s.subscribers e.topic).foldl _ s) ((s'.subscribers e.topic).foldl _ (s'.note _))
    rw [hsubscribers]
    refine Alike.foldl (fun {s s'} sub hs => ?_) _ (h.note_right _)
    have hcalled := (hs.note_right (.called s'.outside.moments.length e sub))
    have hactive : s'.signal.isActive sub.id = s.signal.isActive sub.id := by
      obtain ⟨moments, rfl⟩ := hs
      rfl
    unfold turn
    rw [hactive]
    exact Alike.ite (Alike.react ih _ _ (hs.note_right _)) (hs.note_right _)

theorem deliverAlike_record : DeliverAlike Session.emit record := by
  intro e s s' h
  have hroom : s'.outside.room = s.outside.room := by
    obtain ⟨moments, rfl⟩ := h
    rfl
  unfold record
  rw [hroom]
  exact deliverAlike_recordNested s.outside.room e h

/-! ## Whole courses -/

/-- What becomes of a session when this is done, one thing after another. -/
def course (emit : Delivery PlainView Actors) (acts : List Act) (s : Session PlainView Actors) :
    Session PlainView Actors :=
  acts.foldl (fun s act => act.perform emit s) s

/-- **A recorded course is the course of the session.** -/
theorem alike_course (acts : List Act) (s : Session PlainView Actors) :
    Alike (course Session.emit acts s) (course record acts s) :=
  Alike.foldl (fun act h => h.perform deliverAlike_record act) acts (Alike.refl s)

/-! ## What acts keep -/

/-- All that is done to a session keeps this, as far as events keep it. -/
structure IsSteady (P : Session PlainView Actors → Prop) : Prop where
  aside {s : Session PlainView Actors} (documents : List Document) (visible : List ViewId)
    (active : Option ViewId) (scroll : LinkedScroll) (pending : Nat) (disk : Disk)
    (plan : List (List Act)) : P s →
    P { s with documents, visible, active, scroll, pending, disk,
               outside := { s.outside with plan } }
  addView {s : Session PlainView Actors} (v : PlainView) : P s → P { s with views := s.views ++ [v] }
  modifyView {s : Session PlainView Actors} (id : ViewId) {f : PlainView → PlainView} :
    (∀ v, (f v).decorations = v.decorations) → P s → P (s.modifyView id f)
  listen {s : Session PlainView Actors} (topic : Topic) : P s → P (s.listenNoted topic)
  ignore {s : Session PlainView Actors} (id : Nat) : P s → P (s.ignoreNoted id)
  openPreview {s : Session PlainView Actors} (format : PreviewFormat) :
    P s → P (s.openPreviewNoted format)
  closePreview {s : Session PlainView Actors} (id : PreviewId) : P s → P (s.closePreviewNoted id)
  start {s : Session PlainView Actors} {emit : Delivery PlainView Actors} :
    (∀ e s, P s → P (emit e s)) → P s → P (s.startNoted emit)
  stop {s : Session PlainView Actors} : P s → P s.stopNoted

namespace IsSteady

variable {P : Session PlainView Actors → Prop} {emit : Delivery PlainView Actors}
  {s : Session PlainView Actors} (hP : IsSteady P) (hemit : ∀ e s, P s → P (emit e s))

include hP hemit

theorem edit (edit : ObserverEdit) (hs : P s) : P (edit.perform emit s) := by
  have hdocuments (documents : List Document) : P { s with documents } :=
    hP.aside documents s.visible s.active s.scroll s.pending s.disk s.outside.plan hs
  cases edit with
  | openDocument path text =>
    unfold ObserverEdit.perform Session.openDocument
    dsimp only
    split
    · exact hs
    · exact hemit _ _ (hdocuments _)
  | updateDocument path text =>
    unfold ObserverEdit.perform Session.updateDocument
    dsimp only
    split
    · exact hs
    · split
      · exact hs
      · exact hemit _ _ (hdocuments _)

theorem perform (act : Act) (hs : P s) : P (act.perform emit s) := by
  cases act with
  | edit e => exact hP.edit hemit e hs
  | addView v => exact hP.addView v hs
  | select view text => exact hemit _ _ (hP.modifyView view (fun _ => rfl) hs)
  | place view column top => exact hP.modifyView view (fun _ => rfl) hs
  | setVisible views =>
    exact hemit _ _
      (hP.aside s.documents views s.active s.scroll s.pending s.disk s.outside.plan hs)
  | setActive view =>
    unfold Act.perform Session.setActive
    dsimp only
    split
    · exact hs
    · exact hemit _ _
        (hP.aside s.documents s.visible view s.scroll s.pending s.disk s.outside.plan hs)
  | scroll view line => exact hemit _ _ hs
  | toggleLinkedScroll =>
    exact hP.aside s.documents s.visible s.active _ s.pending s.disk s.outside.plan hs
  | runPending =>
    unfold Act.perform Session.runPending
    dsimp only
    split
    · exact hs
    · exact hP.aside s.documents s.visible s.active _ 0 s.disk s.outside.plan hs
  | changeDisk disk =>
    exact hP.aside s.documents s.visible s.active s.scroll s.pending disk s.outside.plan hs
  | listen topic => exact hP.listen topic hs
  | ignore id => exact hP.ignore id hs
  | openPreview format => exact hP.openPreview format hs
  | closePreview id => exact hP.closePreview id hs
  | start => exact hP.start hemit hs
  | stop => exact hP.stop hs

theorem course (acts : List Act) (hs : P s) : P (course emit acts s) :=
  List.foldlRecOn acts _ hs fun _ hs act _ => hP.perform hemit act hs

theorem hear (e : Event) (hs : P s) : P (Host.hear emit e s) :=
  hP.course hemit _
    (hP.aside s.documents s.visible s.active s.scroll s.pending s.disk s.outside.plan.tail hs)

end IsSteady

end Session

end LangFile
