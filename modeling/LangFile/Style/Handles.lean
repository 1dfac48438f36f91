import LangFile.Style.Basic

/-!
# The table of style handles

A table keeps, in order of first use, the states for which a style was made, each with its style. It
only grows, so one table serves every view.
-/

namespace LangFile

/-- The states for which a style was made, in order of first use, each with its style. -/
structure StyleHandles where
  entries : List (FormattingState × Style)
  /-- Every style was made for its state. -/
  made : ∀ e ∈ entries, e.2 = .ofState e.1

namespace StyleHandles

/-- The table before its first use. -/
def empty : StyleHandles := ⟨[], List.forall_mem_nil _⟩

instance : EmptyCollection StyleHandles := ⟨empty⟩

/-- The number of handles. -/
def size (h : StyleHandles) : Nat := h.entries.length

/-- The style that the table has for a state. -/
def find? (h : StyleHandles) (s : FormattingState) : Option Style :=
  (h.entries.find? fun e => e.1 = s).map (·.2)

/-- The state has a handle. -/
def contains (h : StyleHandles) (s : FormattingState) : Bool := (h.find? s).isSome

/-- The table with a style made for `s`, which comes last. -/
def make (h : StyleHandles) (s : FormattingState) : StyleHandles where
  entries := h.entries ++ [(s, .ofState s)]
  made := List.forall_mem_append.2 ⟨h.made, List.forall_mem_singleton.2 rfl⟩

/-- The style for `s`, which is made if the table has none, and the table with it. -/
def get (h : StyleHandles) (s : FormattingState) : Style × StyleHandles :=
  match h.find? s with
  | some style => (style, h)
  | none => (.ofState s, h.make s)

/-- The table with a handle for `s`. -/
def insert (h : StyleHandles) (s : FormattingState) : StyleHandles := (h.get s).2

/-- The styles of the table, oldest first. -/
def styles (h : StyleHandles) : List Style := h.entries.map (·.2)

theorem eq_ofState_of_find? {h : StyleHandles} {s : FormattingState} {style : Style}
    (hs : h.find? s = some style) : style = .ofState s := by
  obtain ⟨e, he, rfl⟩ := Option.map_eq_some_iff.1 hs
  have hstate := List.find?_some he
  rw [h.made e (List.mem_of_find?_eq_some he), of_decide_eq_true hstate]

/-- **What a table answers does not depend on what it holds.** -/
theorem get_fst (h : StyleHandles) (s : FormattingState) : (h.get s).1 = .ofState s := by
  unfold get
  split
  · next hs => exact eq_ofState_of_find? hs
  · rfl

theorem contains_insert (h : StyleHandles) (s : FormattingState) :
    (h.insert s).contains s = true := by
  unfold insert get
  split
  · next hs => simp [contains, hs]
  · simp [contains, find?, make, List.find?_append]

end StyleHandles

end LangFile
