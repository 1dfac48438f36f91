import LangFile.Session.Delivery
import LangFile.Session.Changes

/-!
# Commands of a session

Starting and ending a session, previews, and the making of language files. Commands that cause
events take the delivery of events as an argument; `Session.emit` is the delivery outside of another
one.
-/

namespace LangFile

/-- What came of a command that the user gave. -/
structure Reply where
  ok : Bool
  message : Text
  path : Option Path := none

namespace Session

variable {V E : Type} [Host V E]

/-! ## Lifecycle -/

/-- What the session itself listens to. -/
def ownInterests : List Interest :=
  [⟨.opened, .validation⟩, ⟨.changed, .validation⟩, ⟨.activated, .decoration⟩,
   ⟨.shown, .decoration⟩, ⟨.scrolled, .scrolling⟩]

/-- The numbers of the next `n` subscriptions. -/
def nextIds (s : Session V E) (n : Nat) : List Nat := (List.range n).map (s.signal.next + ·)

/-- Begins to listen, validates the open documents and decorates the visible views. -/
def start (emit : Delivery V E) (s : Session V E) : Session V E :=
  let subscribed := ownInterests.foldl (fun s i => s.subscribe i.topic i.listener) s
  let started := { subscribed with own := s.nextIds ownInterests.length }
  let validated := started.documents.foldl (fun s d => s.validate emit d.path) started
  validated.decorateVisible

/-- Ends all subscriptions of the session and of its previews. -/
def stop (s : Session V E) : Session V E :=
  let s := s.unsubscribeAll s.own
  let s := s.previews.foldl (fun s p => s.unsubscribeAll p.subscriptions) s
  { s with own := [], previews := [] }

/-- Removes all findings. -/
def clearFindings (emit : Delivery V E) (s : Session V E) : Session V E :=
  s.diagnostics.foldl (fun s d => emit (.diagnosed d.1) s) { s with diagnostics := [] }

/-! ## Commands -/

/-- Switches the keeping in step of scroll positions on or off. -/
def toggleLinkedScroll (s : Session V E) : Session V E × Reply :=
  let enabled := !s.scroll.enabled
  ({ s with scroll := { s.scroll with enabled } },
    ⟨true, "Scroll Sync: " ++ (if enabled then Text.ofString "ON" else Text.ofString "OFF"), none⟩)

/-- Opens a preview of the active view. -/
def openPreview (format : PreviewFormat) (s : Session V E) : Session V E × Option PreviewId :=
  match s.active with
  | none => (s, none)
  | some view =>
    let id := s.nextPreview
    let subscriptions := s.nextIds 2
    let s := s.showOutput id view format
    let s := (s.subscribe .changed (.preview id)).subscribe .selected (.preview id)
    let opened : PreviewState := ⟨id, view, format, subscriptions⟩
    ({ s with previews := s.previews ++ [opened], nextPreview := id + 1 }, some id)

/-- The preview is open. -/
def isPreviewOpen (s : Session V E) (id : PreviewId) : Bool := s.previews.any fun p => p.id = id

/-- Closes a preview. -/
def closePreview (id : PreviewId) (s : Session V E) : Session V E :=
  match s.previews.find? fun p => p.id = id with
  | none => s
  | some p =>
    { s.unsubscribeAll p.subscriptions with previews := s.previews.filter fun p => p.id ≠ id }

/-- Writes the skeleton of a text to a file and reads the file back. -/
def saveAndReadSkeleton (d : Disk) (source : Text) (target : Path) :
    Disk × Except SkeletonError Text :=
  match d.saveSkeleton source target with
  | (d, .error e) => (d, .error e)
  | (d, .ok ()) =>
    match d.readText target with
    | .ok content => (d, .ok content)
    | .error e => (d, .error (.file e))

/-- Makes a language file with the keys of the active document. A file that exists is replaced only
with `overwrite`, and an open document at the target gets the new text. Two things are not
contained: the existence test may fail on a name that is too long, and a source without entries may
be nested too deep. -/
def newLanguageFile (emit : Delivery V E) (target : Path) (overwrite : Bool) (s : Session V E) :
    Except SkeletonError (Session V E × Reply) :=
  match s.activeDocument? with
  | none => .ok (s, ⟨false, "No active JSON file found.", none⟩)
  | some source =>
    match s.disk.exists? target with
    | .error fault => .error (.file (.path fault target.toText))
    | .ok there =>
      if there && !overwrite then
        .ok (s, ⟨false, target.name ++ " already exists.", some target⟩)
      else
        let (disk, content) := saveAndReadSkeleton s.disk source.text target
        let s := { s with disk }
        match content with
        | .error (.source (.malformed .nesting rest)) => .error (.source (.malformed .nesting rest))
        | .error _ => .ok (s, ⟨false, "Error creating file.", none⟩)
        | .ok content =>
          .ok (s.updateDocument emit target.toText content,
            ⟨true, "Created " ++ target.name, some target⟩)

end Session

end LangFile
