import LangFile.Text.CodePoint

/-!
# Title and key bindings

What the application is called, and the keys that start its actions wherever the focus is.
-/

namespace LangFile.App

/-- The title of the application. -/
def title : Text := "Language File Editor"

/-- A key, the action that it starts, and what the footer says about it. -/
structure Binding where
  key : Text
  action : Text
  description : Text
  /-- The key is taken before the focused editor sees it. -/
  priority : Bool := true
deriving DecidableEq

/-- The bindings in the order of the footer. -/
def bindings : List Binding :=
  [{ key := "ctrl+s", action := "save", description := "Save" },
   { key := "ctrl+n", action := "create_lang_file", description := "New lang file" },
   { key := "ctrl+t", action := "toggle_scroll_sync", description := "Scroll sync" },
   { key := "ctrl+p", action := "preview", description := "Preview" },
   { key := "f6", action := "next_editor", description := "Next editor" },
   { key := "ctrl+q", action := "quit", description := "Quit" }]

end LangFile.App
