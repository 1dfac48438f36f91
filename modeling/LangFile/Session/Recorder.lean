import LangFile.Session.Commands
import LangFile.Session.Changes

/-!
# Sessions under observation

Views that only remember what they are told, and surroundings that record every event. The observers
may also edit: at each event they make the edits that a plan holds for it, so that any finite
behaviour of outside listeners can be laid down.
-/

namespace LangFile

/-- A view that remembers. One that echoes reports every line that it is scrolled to. -/
structure PlainView where
  document : Option Text := none
  column : Int := 0
  selection : Text := []
  echo : Bool := false
  top : Int := 0
  revealed : List Int := []
  decorations : Option StyledSpans := none

/-- An edit that an observer makes. -/
inductive ObserverEdit
  | openDocument (path text : Text)
  | updateDocument (path text : Text)
deriving DecidableEq

/-- What observers have heard, in order, and the edits they will make at the next events. -/
structure Recorder where
  events : List Event := []
  plan : List (List ObserverEdit) := []

/-- Makes an edit. -/
def ObserverEdit.perform {V E : Type} (emit : Delivery V E) (e : ObserverEdit)
    (s : Session V E) : Session V E :=
  match e with
  | .openDocument path text => s.openDocument emit path text
  | .updateDocument path text => s.updateDocument emit path text

/-- Observers edit only as planned, and an edit nests deliveries by two levels at most, so the plan
bounds the nesting; what the session itself causes takes a few levels more. -/
instance instHostRecorder : Host PlainView Recorder where
  document v := v.document
  column v := v.column
  selectedText v := some v.selection
  decorate spans v := { v with decorations := some spans }
  reveal line v :=
    ({ v with top := line, revealed := v.revealed ++ [line] }, if v.echo then some line else none)
  revealed emit id line s := emit (.scrolled id line) s
  hear emit e s :=
    let edits := s.outside.plan.head?.getD []
    let recorder : Recorder :=
      { events := s.outside.events ++ [e], plan := s.outside.plan.tail }
    edits.foldl (fun s edit => edit.perform emit s) { s with outside := recorder }
  nesting r := 2 * r.plan.length + 4

/-- A session whose every event is observed. -/
abbrev ObservedSession := Session PlainView Recorder

namespace ObservedSession

/-- Every topic. -/
def topics : List Topic := [.opened, .changed, .activated, .shown, .selected, .scrolled, .diagnosed]

/-- A session that is not started, on a disk, with an observer of every topic. -/
def new (disk : Disk) (referenceName : Text) (deferred : Bool) : ObservedSession :=
  topics.foldl (fun s t => s.subscribe t .outside) { disk, referenceName, deferred, outside := {} }

end ObservedSession

end LangFile
