import LangFile.App.Handlers
import LangFile.Text.Integer

/-!
# What the user can do

Starting and leaving the application, saving, making language files, previews, completions, and the
answers to prompts.
-/

namespace LangFile.App

/-! ## Starting -/

/-- Opens the files of the paths, each once; a missing file is an empty object. -/
def openAll (a : App) : List Text → Except FileError App
  | [] => .ok a
  | path :: paths =>
    match a.disk.loadText (Path.ofText path) with
    | .error e => .error e
    | .ok text => openAll (a.openDocument Session.emit path text) paths

/-- The application with the files open, before it is shown. -/
def new (disk : Disk) (paths : List Text) (referenceName : Text) (width height : Nat) :
    Except FileError App :=
  openAll { disk, referenceName, deferred := true, outside := { width, height } } paths

/-- Adds an editor on a document in a column. -/
def addEditor (a : App) (d : Document) (column : Nat) : App :=
  let e := { Editor.ofDocument d column with
    width := a.outside.width, height := a.outside.height }
  { a with views := a.views ++ [e] }

/-- The numbers of all editors. -/
def editors (a : App) : List ViewId := List.range a.views.length

/-- Shows the application: an editor for each document, and the first of them in focus. -/
def mount (a : App) : App :=
  let a := a.documents.zipIdx.foldl (fun a p => addEditor a p.1 p.2) a
  let a := a.subscribe .diagnosed .outside
  let a := a.setVisible Session.emit (editors a)
  let a := if a.views.isEmpty then a else requestFocus (a.setActive Session.emit (some 0)) 0
  refreshPanel (a.start Session.emit)

/-- Leaves the application. -/
def unmount (a : App) : App := a.stop

/-! ## Files -/

/-- Validates every open document. -/
def validateAll (a : App) : App :=
  a.documents.foldl (fun a d => a.validate Session.emit d.path) a

/-- Saves the active editor's text. Saving the reference validates all documents anew. A save that
fails is told of, and the editor keeps its mark; a write that breaks off has changed the disk. -/
def save (a : App) : Except Error App :=
  match a.active.bind fun id => (a.views[id]?.bind (·.document)).map fun path => (id, path) with
  | none => .ok a
  | some (id, path) =>
    let p := Path.ofText path
    let content := (a.views[id]?.map (·.content)).getD []
    match a.disk.writeText p content with
    | (_, .error (.path fault _)) =>
      .ok (a.tell ("Cannot save: " ++ Text.ofString fault.reason) true)
    | (disk, .error (.writing fault)) =>
      .ok (tell { a with disk } ("Cannot save: " ++ Text.ofString fault.reason) true)
    | (_, .error e) => .error (.file e)
    | (disk, .ok ()) =>
      let saved : App := { a with disk }.modifyView id fun e => { e with modified := false }
      let told := tell saved ("Saved " ++ p.name)
      .ok (if p.name = a.referenceName then validateAll told else told)

/-- Asks where to save a new language file. -/
def askForTarget (a : App) : Except Error App :=
  match activeDocument? a with
  | none => .ok (a.tell "No active JSON file found." true)
  | some d =>
    match a.disk.freeTarget (Path.ofText d.path) with
    | .error e => .error (.file e)
    | .ok p => .ok (a.ask (.savePath p.toText))

/-- Puts a document's text into an editor that shows another one. -/
def reloadEditor (a : App) (editor : ViewId) (d : Document) : App :=
  match a.views[editor]? with
  | none => a
  | some e =>
    if e.content = d.text then a
    else
      let reload (e : Editor) : Editor := (e.loadText d.text).setFindings (a.findings d.path)
      (a.modifyView editor reload).decorateVisible

/-- Opens the file at a path in a column of its own and gives it the focus; a document that is open
already keeps its editor. -/
def openInNewColumn (a : App) (path : Text) : Except Error App :=
  match a.disk.loadText (Path.ofText path) with
  | .error e => .error (.file e)
  | .ok text =>
    let a := a.openDocument Session.emit path text
    let key := (Path.ofText path).toText
    match a.document? key with
    | none => .ok a
    | some d =>
      match a.views.findIdx? fun e => e.document = some d.path with
      | some id => .ok ((reloadEditor a id d).requestFocus id)
      | none =>
        let a := addEditor a d a.views.length
        let a := a.setVisible Session.emit (editors a)
        .ok (requestFocus a (a.views.length - 1))

/-- Makes a language file and opens it; asks first before a file is replaced. -/
def newLanguageFile (a : App) (target : Text) (overwrite : Bool) : Except Error App :=
  if target.isEmpty then .ok a
  else match Session.newLanguageFile Session.emit (Path.ofText target) overwrite a with
    | .error e => .error (.skeleton e)
    | .ok (a, r) =>
      match r.ok, r.path with
      | true, some p => openInNewColumn (tell a r.message) p.toText
      | true, none => .ok (tell a r.message)
      | false, some _ =>
        .ok (if overwrite then tell a r.message true else ask a (.overwrite target))
      | false, none => .ok (tell a r.message true)

/-! ## Prompts -/

/-- Takes the top prompt away. -/
def popPrompt (a : App) : App := a.modify fun s => { s with prompts := s.prompts.dropLast }

/-- The prompt on top. -/
def topPrompt? (a : App) : Option Prompt := a.outside.prompts.getLast?

/-- Confirms the text in the top prompt. -/
def submit (a : App) (value : Text) : Except Error App :=
  match topPrompt? a with
  | some (.savePath _) => newLanguageFile (popPrompt a) (Text.trim value) false
  | _ => .ok a

/-- Presses a key in the top prompt: a path prompt is cancelled, a confirmation answered. -/
def promptKey (a : App) (key : Text) : Except Error App :=
  match topPrompt? a with
  | some (.savePath _) => .ok (popPrompt a)
  | some (.overwrite target) =>
    if key = "y" then newLanguageFile (popPrompt a) target true
    else if key = "n" || key = "escape" then .ok (popPrompt a)
    else .ok a
  | none => .ok a

/-! ## Completions -/

/-- Closes the list of completions and gives the focus back. -/
def endCompletion (a : App) : App :=
  let target := a.outside.completions.target
  let a := a.modify fun s =>
    { s with completions := { s.completions with visible := false, target := none } }
  match target with
  | some (editor, _) => a.requestFocus editor
  | none => a

/-- The offer that a choice names by its number: offers count from zero, or from the end with a
negative number. -/
def chosenOffer (a : App) (choice : Text) : Except Error FormattingCode :=
  match Text.toInt? choice with
  | none => .error .malformedChoice
  | some n =>
    match Offset.get? a.outside.completions.offers n with
    | none => .error .noSuchOffer
    | some code => .ok code

/-- Puts the chosen code in place of the two characters before the place where completion was asked
for. -/
def insertCompletion (a : App) (choice : Text) : Except Error App :=
  match a.outside.completions.target with
  | none => .ok a
  | some (editor, place) =>
    match a.chosenOffer choice, a.views[editor]? with
    | .error e, _ => .error e
    | .ok _, none => .ok a
    | .ok code, some e =>
      match e.replaceColumns place.row (place.column - 2) place.column code.sequence with
      | .error fault => .error (.editor fault)
      | .ok e => .ok (commitText (a.modifyView editor fun _ => e) editor)

/-- Chooses an offered completion, or none. -/
def choose (a : App) (choice : Option Text) : Except Error App :=
  match choice with
  | none => .ok (endCompletion a)
  | some i => (insertCompletion a i).map endCompletion

/-- Presses Escape in the application. -/
def escape (a : App) : App :=
  if a.outside.completions.target.isSome then endCompletion a else a

/-! ## Preview, scrolling, focus -/

/-- Opens or closes the preview of the active editor's selection. -/
def togglePreview (a : App) : App :=
  match a.outside.preview with
  | some id =>
    modify (a.closePreview id) fun s => { s with preview := none, previewVisible := false }
  | none =>
    let (a, id) := a.openPreview .panel
    modify a fun s => { s with preview := id, previewVisible := s.previewVisible || id.isSome }

/-- What the preview shows. -/
def previewContent? (a : App) : Option PreviewOutput := a.outputs.getLast?.map (·.2)

/-- Switches the keeping in step of scroll positions. -/
def toggleLinkedScroll (a : App) : App :=
  let (a, r) := Session.toggleLinkedScroll a
  tell a r.message

/-- Gives the focus to the editor after the active one. -/
def nextEditor (a : App) : App :=
  if a.views.isEmpty then a
  else
    let next := match a.active with
      | some id => if id < a.views.length then id + 1 else 0
      | none => 0
    a.requestFocus (next % a.views.length)

end LangFile.App
