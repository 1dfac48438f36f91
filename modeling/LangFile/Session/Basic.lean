import LangFile.Disk.Skeleton
import LangFile.Preview.Panel
import LangFile.Signal.Basic
import LangFile.Validation

/-!
# Sessions

A session keeps the open documents, the views on them, and what is computed from both: findings,
decorations and previews. Events are delivered to listeners at once, and a listener may cause
further events before the delivery goes on.

A session is told what its views are and what listens outside by an instance of `Host`. The type `V`
is that of views, and `E` that of whatever else the surroundings remember.
-/

namespace LangFile

/-- A view of the session, by number. -/
abbrev ViewId := Nat

/-- A preview of the session, by number. -/
abbrev PreviewId := Nat

/-- What happened. Documents are named by their path. -/
inductive Event
  | opened (document : Text)
  | changed (document : Text)
  | activated (view : Option ViewId)
  | shown (views : List ViewId)
  | selected (view : ViewId)
  | scrolled (view : ViewId) (line : Int)
  | diagnosed (path : Text)
deriving DecidableEq

/-- Kinds of events, to which listeners subscribe. -/
inductive Topic
  | opened | changed | activated | shown | selected | scrolled | diagnosed
deriving DecidableEq

/-- The kind of an event. -/
def Event.topic : Event → Topic
  | opened _ => .opened
  | changed _ => .changed
  | activated _ => .activated
  | shown _ => .shown
  | selected _ => .selected
  | scrolled _ _ => .scrolled
  | diagnosed _ => .diagnosed

/-- Who listens. -/
inductive Listener
  /-- Validates the document that was opened or changed, and decorates the views after a change. -/
  | validation
  /-- Decorates the views. -/
  | decoration
  /-- Scrolls the other columns. -/
  | scrolling
  /-- Renders a preview anew. -/
  | preview (id : PreviewId)
  /-- The surroundings of the session. -/
  | outside
deriving DecidableEq

/-- A listener and what it listens to. -/
structure Interest where
  topic : Topic
  listener : Listener
deriving DecidableEq

/-- How a preview shows a text. -/
inductive PreviewFormat
  | raw
  | page
  | body
  | panel
deriving DecidableEq

/-- What a preview shows. -/
inductive PreviewOutput
  | text (t : Text)
  | rich (r : RichText)
deriving DecidableEq

/-- A text as a preview shows it. -/
def PreviewFormat.render (f : PreviewFormat) (t : Text) : PreviewOutput :=
  match f with
  | raw => .text t
  | page => .text (Preview.page t)
  | body => .text (Preview.body t)
  | panel => .rich (Preview.panel t)

/-- An open preview: the view whose selection it shows, and its subscriptions. -/
structure PreviewState where
  id : PreviewId
  view : ViewId
  format : PreviewFormat
  subscriptions : List Nat

/-- Keeping the scroll positions of all columns in step. While a round of scrolling is in progress,
events begin no other. -/
structure LinkedScroll where
  enabled : Bool := false
  inProgress : Bool := false

/-- The state of a session and of its surroundings. -/
structure Session (V E : Type) where
  disk : Disk := {}
  referenceName : Text := Validation.defaultReferenceName
  documents : List Document := []
  views : List V := []
  visible : List ViewId := []
  active : Option ViewId := none
  signal : Signal Interest := {}
  /-- The session's own subscriptions. -/
  own : List Nat := []
  diagnostics : List (Text × List Finding) := []
  handles : StyleHandles := {}
  scroll : LinkedScroll := {}
  /-- The end of a round of scrolling is put off, not immediate. -/
  deferred : Bool := false
  /-- The number of rounds whose end was put off. -/
  pending : Nat := 0
  previews : List PreviewState := []
  nextPreview : PreviewId := 0
  /-- What previews have shown so far, in order. -/
  outputs : List (PreviewId × PreviewOutput) := []
  /-- Some delivery was nested too deep and left out. -/
  overrun : Bool := false
  /-- Some preview was to show a selection that its view could not give. -/
  unreadable : Bool := false
  outside : E

/-- How an event is delivered. -/
abbrev Delivery (V E : Type) := Event → Session V E → Session V E

/-- What a session needs to know about its views and its surroundings. -/
class Host (V E : Type) where
  /-- The document that a view shows. -/
  document : V → Option Text
  /-- The column of the screen in which a view stands. -/
  column : V → Int
  /-- The text selected in a view, unless the selection reaches outside the view's text. -/
  selectedText : V → Option Text
  /-- Draws these spans in their styles, and no others. -/
  decorate : StyledSpans → V → V
  /-- Scrolls a view to a line. The answer is the line that the view then reports, if it does. -/
  reveal : Int → V → V × Option Int
  /-- What the surroundings do when a view reports that it has been scrolled by the session. -/
  revealed : Delivery V E → ViewId → Int → Session V E → Session V E
  /-- What the surroundings do when they hear of an event. -/
  hear : Delivery V E → Event → Session V E → Session V E
  /-- How deep deliveries may nest. -/
  nesting : E → Nat

namespace Session

variable {V E : Type}

/-- The open document at a path. -/
def document? (s : Session V E) (path : Text) : Option Document :=
  s.documents.find? fun d => d.path = path

/-- The session with another state of an open document. -/
def setDocument (s : Session V E) (d : Document) : Session V E :=
  { s with documents := s.documents.map fun old => if old.path = d.path then d else old }

/-- The session with a view changed. -/
def modifyView (s : Session V E) (id : ViewId) (f : V → V) : Session V E :=
  { s with views := s.views.modify id f }

/-- The document that a view shows. -/
def viewDocument? [Host V E] (s : Session V E) (id : ViewId) : Option Text :=
  s.views[id]?.bind (Host.document E)

/-- The document of the active view. -/
def activeDocument? [Host V E] (s : Session V E) : Option Document :=
  (s.active.bind s.viewDocument?).bind s.document?

/-- The findings about a path. -/
def findings (s : Session V E) (path : Text) : List Finding :=
  ((s.diagnostics.find? fun p => p.1 = path).map (·.2)).getD []

/-- The number of stored findings of some kind. -/
def countFindings (s : Session V E) (p : Finding → Bool) : Nat :=
  (s.diagnostics.flatMap (·.2)).countP p

/-- The session with one more subscription; its number is `s.signal.next`. -/
def subscribe (s : Session V E) (topic : Topic) (listener : Listener) : Session V E :=
  { s with signal := s.signal.subscribe ⟨topic, listener⟩ }

/-- The session without some subscriptions. -/
def unsubscribeAll (s : Session V E) (ids : List Nat) : Session V E :=
  { s with signal := ids.foldl Signal.unsubscribe s.signal }

/-- The subscriptions to a topic. -/
def subscribers (s : Session V E) (topic : Topic) : List (Subscription Interest) :=
  s.signal.subscriptions.filter fun sub => sub.listener.topic = topic

end Session

end LangFile
