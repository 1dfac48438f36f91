import LangFile.Proofs.Editor.History

/-!
# Read-only editors

A key that edits asks whether it may, and so does the replacement of columns. The keys that go
through the history do not ask: they are harmless because a history that is empty at first stays
empty as long as nothing is edited. So nothing that is done to a read-only editor changes its text.

1. What may be done to an editor (`Input`, `take`).
2. One input (`yields_take`).
3. All inputs, one after another (`readOnly_untouched`).
-/

namespace LangFile

/-- The message is only about what is selected or shown. -/
def EditorMessage.IsAboutView (m : EditorMessage) : Prop :=
  m ≠ .textChanged ∧ ∀ place before, m ≠ .completionRequested place before

namespace Editor

variable {e e' : Editor}

/-! ## What is done to an editor -/

/-- Something that is done to an editor from outside. -/
inductive Input
  | press (name : Text) (produced : Option Text)
  | replace (row start stop : Int) (t : Text)
  | scrollTo (line : Int)
  | scrollBy (delta : Int)
  | decorate (spans : StyledSpans)
  | diagnose (findings : List Finding)
  | resize (width height : Nat) (focused : Bool)

/-- The editor after an input, and what it tells. -/
def take (e : Editor) : Input → Except Fault (Editor × List EditorMessage)
  | .press name produced => e.pressKey (.ofName name produced)
  | .replace row start stop t => (e.replaceColumns row start stop t).map (·, [])
  | .scrollTo line => .ok (e.scrollTo line)
  | .scrollBy delta => .ok (e.scrollBy delta)
  | .decorate spans => .ok (e.showDecorations spans, [])
  | .diagnose findings => .ok (e.setFindings findings, [])
  | .resize width height focused => .ok ({ e with width, height, focused }, [])

/-- The editor after some inputs, one after another, and all that it tells. -/
def takeAll (e : Editor) : List Input → Except Fault (Editor × List EditorMessage)
  | [] => .ok (e, [])
  | i :: is => do
    let (e, messages) ← e.take i
    let (e, more) ← e.takeAll is
    return (e, messages ++ more)

/-! ## One input -/

/-- A read-only editor that has the text of another one, and no history. -/
structure IsUntouched (e e' : Editor) : Prop where
  readOnly : e'.readOnly = true
  lines : e'.buffer.lines = e.buffer.lines
  modified : e'.modified = e.modified
  version : e'.version = e.version
  undo : e'.undo = []
  redo : e'.redo = []

variable {e'' : Editor} {k : KeyPress} {messages : List EditorMessage}

theorem IsUntouched.content (h : IsUntouched e e') : e'.content = e.content :=
  congrArg Text.unlines h.lines

/-- What is put on the screen in another way is as untouched as before. -/
theorem IsUntouched.of_eq (h : IsUntouched e e') (hreadOnly : e''.readOnly = e'.readOnly)
    (hlines : e''.buffer.lines = e'.buffer.lines) (hmodified : e''.modified = e'.modified)
    (hversion : e''.version = e'.version) (hundo : e''.undo = e'.undo)
    (hredo : e''.redo = e'.redo) : IsUntouched e e'' :=
  ⟨hreadOnly.trans h.readOnly, hlines.trans h.lines, hmodified.trans h.modified,
    hversion.trans h.version, hundo.trans h.undo, hredo.trans h.redo⟩

/-- **A key leaves a read-only editor untouched:** it is no edit, and there is no way back or
forward. -/
theorem IsUntouched.pressed (h : IsUntouched e e') (hpressed : Pressed k e' e'') :
    IsUntouched e e'' := by
  cases hpressed with
  | passed buffer anchor status top hlines => exact h.of_eq rfl hlines rfl rfl rfl rfl
  | edited buffer status top hwritable =>
    rw [h.readOnly] at hwritable
    simp at hwritable
  | undone _ _ _ hundo =>
    rw [h.undo] at hundo
    simp at hundo
  | redone _ _ _ hredo =>
    rw [h.redo] at hredo
    simp at hredo

theorem isAboutView_of_mem_changes (hversion : e'.version = e.version) :
    ∀ m ∈ changes e e', m.IsAboutView := by
  intro m hm
  simp only [changes, hversion, if_true, List.nil_append, List.mem_append] at hm
  rcases hm with hm | hm
  · split at hm
    · simp at hm
    · obtain rfl := List.mem_singleton.1 hm
      exact ⟨by simp, by simp⟩
  · split at hm
    · simp at hm
    · obtain rfl := List.mem_singleton.1 hm
      exact ⟨by simp, by simp⟩

/-- A read-only editor wants no completion. -/
theorem completionPlace?_of_readOnly (h : e.readOnly = true) (k : KeyPress) :
    e.completionPlace? k = .ok none := by
  unfold completionPlace?
  rw [h]
  simp

theorem IsUntouched.isAboutView_of_pressKey (h : IsUntouched e e')
    (hpress : e'.pressKey k = .ok (e'', messages)) : ∀ m ∈ messages, m.IsAboutView := by
  have hafter := h.pressed (pressed_of_pressKey hpress)
  obtain ⟨performed, buffer, top, wanted, hperform, hclamp, rfl, rfl, hwanted⟩ :=
    exists_of_pressKey hpress
  intro m hm
  rcases List.mem_append.1 hm with hm | hm
  · exact isAboutView_of_mem_changes (hafter.version.trans h.version.symm) m hm
  · -- completion would have to be wanted by the editor that the key leaves, which is read-only
    obtain ⟨place, before, -, hplace⟩ := hwanted m hm
    have hreadOnly : performed.readOnly = true := hafter.readOnly
    rw [completionPlace?_of_readOnly hreadOnly] at hplace
    simp at hplace

theorem scrollTo_cases (e : Editor) (line : Int) :
    ∃ top messages, e.scrollTo line = ({ e with top }, messages) ∧
      ∀ m ∈ messages, m.IsAboutView := by
  unfold Editor.scrollTo
  dsimp only
  split
  · exact ⟨e.top, [], rfl, by simp⟩
  · refine ⟨_, _, rfl, fun m hm => ?_⟩
    obtain rfl := List.mem_singleton.1 hm
    exact ⟨by simp, by simp⟩

/-- What is true of an editor after an input, and of what it tells. -/
def StaysUntouched (e : Editor) (r : Editor × List EditorMessage) : Prop :=
  IsUntouched e r.1 ∧ r.1.IsWellFormed ∧ ∀ m ∈ r.2, m.IsAboutView

/-- **An input is taken,** one case for each, and leaves a read-only editor untouched. -/
theorem IsUntouched.yields_take (h : IsUntouched e e') (hwell : e'.IsWellFormed) (i : Input) :
    Yields (StaysUntouched e) (e'.take i) := by
  cases i with
  | press name produced =>
    obtain ⟨⟨pressed, messages⟩, hpress, hwell⟩ := yields_pressKey hwell name produced
    exact ⟨_, hpress, h.pressed (pressed_of_pressKey hpress), hwell,
      h.isAboutView_of_pressKey hpress⟩
  | replace row start stop t =>
    have hrefused : e'.replaceColumns row start stop t = .ok { e' with status := "[readonly]" } := by
      unfold replaceColumns
      rw [if_pos h.readOnly]
    show Yields _ ((e'.replaceColumns row start stop t).map (·, []))
    rw [hrefused]
    exact Yields.ok ⟨h.of_eq rfl rfl rfl rfl rfl rfl, hwell.of_eq rfl rfl rfl rfl, by simp⟩
  | scrollTo line =>
    obtain ⟨top, messages, hscroll, hmessages⟩ := e'.scrollTo_cases line
    show Yields _ (.ok (e'.scrollTo line))
    rw [hscroll]
    exact Yields.ok ⟨h.of_eq rfl rfl rfl rfl rfl rfl, hwell.of_eq rfl rfl rfl rfl, hmessages⟩
  | scrollBy delta =>
    obtain ⟨top, messages, hscroll, hmessages⟩ := e'.scrollTo_cases (e'.top + delta)
    show Yields _ (.ok (e'.scrollTo (e'.top + delta)))
    rw [hscroll]
    exact Yields.ok ⟨h.of_eq rfl rfl rfl rfl rfl rfl, hwell.of_eq rfl rfl rfl rfl, hmessages⟩
  | decorate | diagnose | resize =>
    exact Yields.ok ⟨h.of_eq rfl rfl rfl rfl rfl rfl, hwell.of_eq rfl rfl rfl rfl, by simp⟩

/-! ## All inputs -/

theorem IsUntouched.yields_takeAll (h : IsUntouched e e') (hwell : e'.IsWellFormed)
    (is : List Input) : Yields (StaysUntouched e) (e'.takeAll is) := by
  induction is generalizing e' with
  | nil => exact Yields.ok ⟨h, hwell, by simp⟩
  | cons i is ih =>
    refine (h.yields_take hwell i).bind fun r hr => ?_
    obtain ⟨hafter, hwell, hmessages⟩ := hr
    refine (ih hafter hwell).bind fun r' hr' => ?_
    obtain ⟨hafter, hwell, hmore⟩ := hr'
    exact Yields.ok ⟨hafter, hwell, List.forall_mem_append.2 ⟨hmessages, hmore⟩⟩

/--
**Nothing touches a read-only editor.** Whatever is done to a new editor that is read-only, in any
order and number, it is taken, and after it the text, its version and its mark are those of the new
editor, there is nothing to undo or to redo, and the editor has told nothing of a changed text or of
completion.
-/
theorem readOnly_untouched (t : Text) (document : Option Text) (column : Int) (focused : Bool)
    (width height : Nat) (is : List Input) :
    ∃ e messages,
      takeAll { ofText t with readOnly := true, document, column, focused, width, height } is
        = .ok (e, messages) ∧
      e.content = t ∧ e.modified = false ∧ e.version = 0 ∧ e.undo = [] ∧ e.redo = [] ∧
      .textChanged ∉ messages ∧ ∀ place before, .completionRequested place before ∉ messages := by
  let new : Editor := { ofText t with readOnly := true, document, column, focused, width, height }
  have hnew : IsUntouched new new := ⟨rfl, rfl, rfl, rfl, rfl, rfl⟩
  have hwell : new.IsWellFormed :=
    (Reachable.new t document column true focused width height).isWellFormed
  obtain ⟨⟨e, messages⟩, htaken, hafter, -, hmessages⟩ := hnew.yields_takeAll hwell is
  have hcontent : e.content = t := hafter.content.trans (Text.unlines_lines t)
  exact ⟨e, messages, htaken, hcontent, hafter.modified, hafter.version, hafter.undo, hafter.redo,
    fun hm => (hmessages _ hm).1 rfl, fun place before hm => (hmessages _ hm).2 place before rfl⟩

end Editor

end LangFile
