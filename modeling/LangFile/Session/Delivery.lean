import LangFile.Session.Basic

/-!
# What a session does when something happens

Every pass computes its result anew and replaces the one before. A function that causes events takes
the delivery of further events as its first argument; `Session.emit` ties the knot, to a nesting
that the surroundings allow.
-/

namespace LangFile

/-- The findings by path with those about one path replaced; a new path comes last. -/
def setFindings (all : List (Text × List Finding)) (path : Text) (fs : List Finding) :
    List (Text × List Finding) :=
  match all with
  | [] => [(path, fs)]
  | (p, old) :: rest => if p = path then (p, fs) :: rest else (p, old) :: setFindings rest path fs

namespace Session

variable {V E : Type} [Host V E]

/-! ## Findings -/

/-- Replaces the findings about a path. -/
def post (emit : Delivery V E) (path : Text) (fs : List Finding) (s : Session V E) : Session V E :=
  emit (.diagnosed path) { s with diagnostics := setFindings s.diagnostics path fs }

/-- The languages of documents that are validated. -/
def validatedLanguages : List Text := [Language.json.name, Language.jsonc.name]

/-- The comparison of a document with its reference on the disk. -/
def comparison? (s : Session V E) (path : Text) : Option Comparison :=
  match s.document? path with
  | none => none
  | some d =>
    if validatedLanguages.contains d.language then
      Validation.validate s.disk (Path.ofText d.path) d.text s.referenceName
    else none

/-- Validates a document and posts the findings about it and about its reference. Without a
reference nothing is posted. -/
def validate (emit : Delivery V E) (path : Text) (s : Session V E) : Session V E :=
  match s.comparison? path with
  | none => s
  | some c => post emit c.referencePath c.reference (post emit path c.candidate s)

/-! ## Decorations -/

/-- Decorates a view with its document's text. -/
def decorateView (s : Session V E) (id : ViewId) : Session V E :=
  match (s.viewDocument? id).bind s.document? with
  | none => s
  | some d =>
    let (spans, handles) := decorate d.text s.handles
    { s with handles }.modifyView id (Host.decorate E spans)

/-- Decorates all visible views. -/
def decorateVisible (s : Session V E) : Session V E := s.visible.foldl decorateView s

/-! ## Scrolling -/

/-- Scrolls a view to a line, and lets the surroundings act upon its report. -/
def reveal (emit : Delivery V E) (id : ViewId) (line : Int) (s : Session V E) : Session V E :=
  match s.views[id]? with
  | none => s
  | some v =>
    let (v, report) := Host.reveal E line v
    let s := s.modifyView id fun _ => v
    match report with
    | none => s
    | some line => Host.revealed emit id line s

/-- The column in which a view stands. -/
def viewColumn (s : Session V E) (id : ViewId) : Option Int := s.views[id]?.map (Host.column E)

/-- A round of scrolling: the visible views of other columns are scrolled to the line of the active
view. The end of the round is put off if the session defers it. -/
def scrollLinked (emit : Delivery V E) (source : ViewId) (line : Int) (s : Session V E) :
    Session V E :=
  if !s.scroll.enabled || s.scroll.inProgress || s.active ≠ some source then s
  else
    let begun := { s with scroll := { s.scroll with inProgress := true } }
    let scrolled := begun.visible.foldl
      (fun s id =>
        if id ≠ source && s.viewColumn id ≠ s.viewColumn source then s.reveal emit id line else s)
      begun
    if scrolled.deferred then { scrolled with pending := scrolled.pending + 1 }
    else { scrolled with scroll := { scrolled.scroll with inProgress := false } }

/-- Ends the rounds of scrolling whose end was put off. -/
def runPending (s : Session V E) : Session V E :=
  if s.pending = 0 then s
  else { s with pending := 0, scroll := { s.scroll with inProgress := false } }

/-! ## Previews -/

/-- What a preview of a view shows: the selection, or a space if it is empty. -/
def previewText? (s : Session V E) (view : ViewId) : Option Text :=
  match s.views[view]? with
  | none => some " "
  | some v => (Host.selectedText E v).map fun t => if t.isEmpty then (" " : Text) else t

/-- Shows a preview anew. -/
def showOutput (s : Session V E) (id : PreviewId) (view : ViewId) (format : PreviewFormat) :
    Session V E :=
  match s.previewText? view with
  | some t => { s with outputs := s.outputs ++ [(id, format.render t)] }
  | none => { s with unreadable := true }

/-- Renders a preview if the event concerns its view or the view's document. -/
def refreshPreview (id : PreviewId) (e : Event) (s : Session V E) : Session V E :=
  match s.previews.find? fun p => p.id = id with
  | none => s
  | some p =>
    let concerned : Bool := match e with
      | .changed d => s.viewDocument? p.view = some d
      | .selected v => v = p.view
      | _ => false
    if concerned then s.showOutput id p.view p.format else s

/-! ## Delivery -/

/-- What a listener does when it hears of an event. -/
def react (emit : Delivery V E) (l : Listener) (e : Event) (s : Session V E) : Session V E :=
  match l, e with
  | .validation, .opened d => s.validate emit d
  | .validation, .changed d => (s.validate emit d).decorateVisible
  | .decoration, _ => s.decorateVisible
  | .scrolling, .scrolled v line => s.scrollLinked emit v line
  | .preview id, e => s.refreshPreview id e
  | .outside, e => Host.hear emit e s
  | _, _ => s

/-- Delivers an event to its subscribers, with further deliveries nested up to `depth` deep. -/
def emitNested : (depth : Nat) → Delivery V E
  | 0, _, s => { s with overrun := true }
  | depth + 1, e, s =>
    deliver (fun s id => s.signal.isActive id)
      (fun interest s => s.react (emitNested depth) interest.listener e)
      (s.subscribers e.topic) s

/-- Delivers an event to its subscribers. -/
def emit (e : Event) (s : Session V E) : Session V E :=
  emitNested (Host.nesting V s.outside) e s

end Session

end LangFile
