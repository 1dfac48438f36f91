import LangFile.Session.Basic

/-!
# Changes that are events

Opening and changing documents, and showing and activating views. A change that changes nothing is
no event. The delivery of the event is an argument, so that a listener can make the change inside
another delivery.
-/

namespace LangFile.Session

variable {V E : Type}

/-- Opens a document, unless one is open at the path. -/
def openDocument (emit : Delivery V E) (path text : Text) (s : Session V E) : Session V E :=
  let d := Document.new path text
  match s.document? d.path with
  | some _ => s
  | none => emit (.opened d.path) { s with documents := s.documents ++ [d] }

/-- Gives a document a new text; without a change nothing happens. -/
def updateDocument (emit : Delivery V E) (path text : Text) (s : Session V E) : Session V E :=
  match s.document? path with
  | none => s
  | some d => if d.text = text then s else emit (.changed path) (s.setDocument (d.setText text))

/-- Shows these views. -/
def setVisible (emit : Delivery V E) (views : List ViewId) (s : Session V E) : Session V E :=
  emit (.shown views) { s with visible := views }

/-- Makes a view the active one, or none. -/
def setActive (emit : Delivery V E) (view : Option ViewId) (s : Session V E) : Session V E :=
  if view = s.active then s else emit (.activated view) { s with active := view }

end LangFile.Session
