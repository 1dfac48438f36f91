import LangFile.App.Basic

/-!
# Handling what was posted

Messages and requests for focus are handled one by one, in the order in which they were posted. Only
a round of scrolling posts more of them.
-/

namespace LangFile.App

/-- Why an operation of the application failed. -/
inductive Error
  | file (e : FileError)
  | skeleton (e : SkeletonError)
  /-- An editor could not do what it was asked for. -/
  | editor (fault : Editor.Fault)
  /-- A completion was chosen by something that is no number. -/
  | malformedChoice
  /-- A completion was chosen that was not offered. -/
  | noSuchOffer
  /-- A preview was to show a selection that reaches outside the text. -/
  | unreadableSelection
deriving DecidableEq

/-- Brings the document of an editor up to date with its text. -/
def commitText (a : App) (editor : ViewId) : App :=
  match a.views[editor]? with
  | none => a
  | some e =>
    match e.document with
    | none => a
    | some path => a.updateDocument Session.emit path e.content

/-- Offers completions behind `before`, if there are any. -/
def offerCompletions (a : App) (editor : ViewId) (place : Editor.Cursor) (before : Text) : App :=
  let document := (a.views[editor]?.bind (·.document)).bind a.document?
  let language := (document.map (·.language)).getD Language.plaintext.name
  match Completion.offers before language with
  | [] => a
  | offers => a.modify fun s =>
    { s with completions :=
      { visible := true, highlighted := some 0, offers, target := some (editor, place) } }

/-- Gives the focus to an editor, and makes it the active one. -/
def giveFocus (a : App) (editor : ViewId) : App :=
  let focused : App :=
    { a with views := a.views.mapIdx fun i e => { e with focused := i = editor } }
  refreshPanel (focused.setActive Session.emit (some editor))

/-- Handles what was posted. Textual is assumed to call the handler that the application has for it,
that one only, and not before the one before it has returned. A focus that was asked for is given
when its turn comes, and to one editor only. -/
def handle (a : App) (p : Posted) : App :=
  match p with
  | .message id .textChanged => commitText a id
  | .message id .selectionChanged => Session.emit (.selected id) a
  | .message id (.scrolled top) => Session.emit (.scrolled id top) a
  | .message id (.completionRequested place before) => offerCompletions a id place before
  | .focus id => giveFocus a id

/-- Handles what is in the queue, and what is put into it meanwhile, at most `steps` items. -/
def drain : (steps : Nat) → App → App
  | 0, a => a
  | steps + 1, a =>
    match a.outside.queue with
    | [] => a
    | p :: rest => drain steps (handle (a.modify fun s => { s with queue := rest }) p)

/-- Handles everything: what is queued, and the scrolling of the other editors that it may cause. It
fails when a preview could not be shown by then. -/
def settle (a : App) : Except Error App :=
  let settled := drain (a.outside.queue.length + a.visible.length + 1) a
  if settled.unreadable then .error .unreadableSelection else .ok settled

/-- Puts an editor back that has done something, and posts what it tells. -/
def edit (a : App) (editor : ViewId) (e : Editor) (messages : List EditorMessage) : App :=
  messages.foldl (fun a m => a.post (.message editor m)) (a.modifyView editor fun _ => e)

end LangFile.App
