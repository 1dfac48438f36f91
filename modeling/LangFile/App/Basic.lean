import LangFile.Completion
import LangFile.Editor.Keys
import LangFile.Editor.Screen
import LangFile.Session.Changes
import LangFile.Session.Commands

/-!
# The application

A session whose views are editors side by side, one column each. Around them stand the panel with
the findings of the active editor, the list of completions, the preview, and a stack of prompts.
What the editors tell is put into a queue, and taken from it in order.
-/

namespace LangFile

/-- A message to the user. -/
structure Note where
  isError : Bool
  message : Text
deriving DecidableEq

/-- A question to the user. -/
inductive Prompt
  /-- Where to save a new language file; the suggested path. -/
  | savePath (suggestion : Text)
  /-- Whether to replace the file at the target. -/
  | overwrite (target : Text)
deriving DecidableEq

namespace Prompt

/-- The heading of a prompt, with its markup. -/
def heading : Prompt → Text
  | savePath _ => "[b]Save New Language File[/b]"
  | overwrite target =>
    "[b]" ++ (Path.ofText target).name ++ " already exists. Overwrite?[/b]  (y/n)"

end Prompt

/-- What waits to be handled. -/
inductive Posted
  | message (editor : ViewId) (m : EditorMessage)
  | focus (editor : ViewId)
deriving DecidableEq

/-- What the panel of findings shows. -/
inductive PanelContent
  | markup (t : Text)
  | rich (r : RichText)
deriving DecidableEq

/-- The list of completions; `target` is where a choice goes, while there is one to be made. -/
structure CompletionList where
  visible : Bool := false
  highlighted : Option Nat := none
  offers : List FormattingCode := []
  target : Option (ViewId × Editor.Cursor) := none

/-- What the application remembers beside its session. -/
structure AppState where
  width : Nat := 40
  height : Nat := 6
  queue : List Posted := []
  prompts : List Prompt := []
  notes : List Note := []
  panel : PanelContent := .markup []
  completions : CompletionList := {}
  preview : Option PreviewId := none
  previewVisible : Bool := false

/-- The application. -/
abbrev App := Session Editor AppState

namespace App

/-- The application with its own state changed. -/
def modify (a : App) (f : AppState → AppState) : App := { a with outside := f a.outside }

/-- Puts something at the end of the queue. Textual is assumed to keep all that is posted to the
application in one queue, in the order in which it was posted, and to lose nothing of it. -/
def post (a : App) (p : Posted) : App := a.modify fun s => { s with queue := s.queue ++ [p] }

/-- Asks that an editor get the focus. -/
def requestFocus (a : App) (editor : ViewId) : App := a.post (.focus editor)

/-- Shows a message to the user. -/
def tell (a : App) (message : Text) (isError : Bool := false) : App :=
  a.modify fun s => { s with notes := s.notes ++ [⟨isError, message⟩] }

/-- Puts a prompt on top of the others. -/
def ask (a : App) (p : Prompt) : App := a.modify fun s => { s with prompts := s.prompts ++ [p] }

/-! ## The panel of findings -/

/-- The most findings that the panel shows. -/
def panelLimit : Nat := 5

/-- The text filled up with blanks to eight characters. -/
def padSeverity (t : Text) : Text := t ++ List.replicate (8 - t.length) (.scalar ' ')

/-- The pieces that show a finding about a document. -/
def findingPieces (d : Document) (f : Finding) : List (Text × Style) :=
  let pos := d.positionAt f.span.start
  let color : PaletteColor := match f.severity with
    | .error => .red
    | .warning => .yellow
  [(padSeverity (Text.ofString f.severity.name),
      { foreground := some (.palette color), bold := true }),
    (Text.ofInt (pos.row + 1) ++ ":" ++ Text.ofInt (pos.column + 1) ++ "  " ++ f.message ++ "  ",
      .null),
    (f.key, { dim := true })]

/-- The pieces that show findings, line feeds between them. -/
def findingsPieces (d : Document) : List Finding → List (Text × Style)
  | [] => []
  | [f] => findingPieces d f
  | f :: fs => findingPieces d f ++ [(Text.ofString "\n", .null)] ++ findingsPieces d fs

/-- The panel for a document and the findings about it. -/
def panelFor (d : Document) (fs : List Finding) : PanelContent :=
  if fs.isEmpty then .markup ("[dim]" ++ d.fileName ++ ": no problems[/dim]")
  else
    let more : List (Text × Style) :=
      if panelLimit < fs.length then
        [("\n... " ++ Text.ofNat (fs.length - panelLimit) ++ " more", { dim := true })]
      else []
    .rich (.ofPieces (findingsPieces d (fs.take panelLimit) ++ more))

/-- The document that the active editor shows. -/
def activeDocument? (a : App) : Option Document :=
  ((a.active.bind fun id => a.views[id]?).bind (·.document)).bind a.document?

/-- Shows the findings about the active editor's document. -/
def refreshPanel (a : App) : App :=
  let panel := match activeDocument? a with
    | none => PanelContent.markup []
    | some d => panelFor d (a.findings d.path)
  a.modify fun s => { s with panel }

/-- Gives the editors of a document its findings. -/
def refreshEditors (a : App) (path : Text) : App :=
  let fs := a.findings path
  { a with views := a.views.map fun e => if e.document = some path then e.setFindings fs else e }

end App

/-- Editors report a scroll position that they did not have before; the report waits in the queue.
When findings change, the editors of their document and the panel are brought up to date. -/
instance instHostApp : Host Editor AppState where
  document e := e.document
  column e := e.column
  selectedText e := e.selectedText.toOption
  decorate spans e := e.showDecorations spans
  reveal line e :=
    let (e, messages) := e.scrollTo line
    (e, if messages.isEmpty then none else some e.top)
  revealed _ id line a := App.post a (.message id (.scrolled line.toNat))
  hear _ event a :=
    match event with
    | .diagnosed path => App.refreshPanel (App.refreshEditors a path)
    | _ => a
  nesting _ := 4

end LangFile
