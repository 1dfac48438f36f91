import Mathlib.Data.List.TakeWhile
import LangFile.Proofs.Editor.Reachable

/-!
# The editor as a flat text

Seen from outside an editor is one text with a cursor and a selection, all three as offsets. What a
key does to rows and columns is then what one expects of it: characters are put in the place of what
is selected, or taken out on either side of the cursor.

1. Offsets of places, which part the text as the places part the lines (`text_eq_of_parts`).
2. Texts in two parts, and what buffers are in these terms (`Buffer.Reads`).
3. The flat text of an editor (`Editor.flat`), and what each key does to it.
-/

namespace LangFile

open Editor

/-! ## Flat texts -/

/-- A text with the offsets of its cursor and of both ends of the selection, which is empty when
there is none. -/
structure FlatText where
  text : Text
  cursor : Nat
  first : Nat
  last : Nat
deriving DecidableEq

namespace FlatText

/-- The text with the cursor at an offset, and nothing selected. -/
def unselected (text : Text) (cursor : Nat) : FlatText := ⟨text, cursor, cursor, cursor⟩

/-- What stands before the selection. -/
def before (t : FlatText) : Text := t.text.take t.first

/-- What stands behind the selection. -/
def behind (t : FlatText) : Text := t.text.drop t.last

/-- What is selected. -/
def selected (t : FlatText) : Text := (t.text.take t.last).drop t.first

/-- The selection gives way to a text, and the cursor stands behind that. -/
def put (t : FlatText) (new : Text) : FlatText :=
  unselected (t.before ++ new ++ t.behind) (t.first + new.length)

/-- The selection is taken out, or else the character before the cursor. -/
def backspace (t : FlatText) : FlatText :=
  if t.first < t.last then t.put []
  else unselected (t.text.take (t.cursor - 1) ++ t.text.drop t.cursor) (t.cursor - 1)

/-- The selection is taken out, or else the character at the cursor. -/
def delete (t : FlatText) : FlatText :=
  if t.first < t.last then t.put []
  else unselected (t.text.take t.cursor ++ t.text.drop (t.cursor + 1)) t.cursor

/-- A text without the white space that its first line begins with. -/
def unindent (t : Text) : Text :=
  Text.trimLeft (t.takeWhile (· ≠ .scalar '\n')) ++ t.dropWhile (· ≠ .scalar '\n')

/-- The selection gives way to a line feed, and white space behind it to spaces; the cursor stands
behind these. -/
def breakLine (t : FlatText) (spaces : Nat) : FlatText :=
  unselected (t.before ++ .scalar '\n' :: List.replicate spaces (.scalar ' ') ++ unindent t.behind)
    (t.first + 1 + spaces)

@[simp] theorem backspace_unselected (text : Text) (cursor : Nat) :
    (unselected text cursor).backspace
      = unselected (text.take (cursor - 1) ++ text.drop cursor) (cursor - 1) :=
  if_neg (Nat.lt_irrefl cursor)

@[simp] theorem delete_unselected (text : Text) (cursor : Nat) :
    (unselected text cursor).delete
      = unselected (text.take cursor ++ text.drop (cursor + 1)) cursor :=
  if_neg (Nat.lt_irrefl cursor)

theorem unindent_unlines {l : Text} (h : .scalar '\n' ∉ l) (ls : List Text) :
    unindent (Text.unlines (l :: ls)) = Text.unlines (Text.trimLeft l :: ls) := by
  have hline : ∀ c ∈ l, decide (c ≠ .scalar '\n') = true := by
    intro c hc
    exact decide_eq_true fun heq => h (heq ▸ hc)
  unfold unindent
  cases ls with
  | nil =>
    have htake := List.takeWhile_eq_self_iff.2 hline
    have hdrop := List.dropWhile_eq_nil_iff.2 hline
    rw [Text.unlines_singleton, Text.unlines_singleton, htake, hdrop]
    simp
  | cons m ms =>
    have hms : m :: ms ≠ [] := List.cons_ne_nil m ms
    rw [Text.unlines_cons _ hms, Text.unlines_cons _ hms, List.takeWhile_append_of_pos hline,
      List.dropWhile_append_of_pos hline]
    simp

/-- To break a line loses no character that is not blank, and keeps these in order. -/
theorem filter_breakLine (t : FlatText) (spaces : Nat) :
    (t.breakLine spaces).text.filter (!·.isBlank)
      = t.before.filter (!·.isBlank) ++ t.behind.filter (!·.isBlank) := by
  have hfeed : (.scalar '\n' : CodePoint).isBlank = true := by decide
  have hspaces : (List.replicate spaces (.scalar ' ' : CodePoint)).filter (!·.isBlank) = [] := by
    rw [List.filter_replicate]
    rfl
  have htrim (l : Text) : (Text.trimLeft l).filter (!·.isBlank) = l.filter (!·.isBlank) := by
    induction l with
    | nil => rfl
    | cons c l ih =>
      unfold Text.trimLeft at ih ⊢
      by_cases hc : c.isBlank
      · rw [List.dropWhile_cons_of_pos hc, ih, List.filter_cons_of_neg (by simp [hc])]
      · rw [List.dropWhile_cons_of_neg hc]
  have hunindent : (unindent t.behind).filter (!·.isBlank) = t.behind.filter (!·.isBlank) := by
    unfold unindent
    rw [List.filter_append, htrim, ← List.filter_append, List.takeWhile_append_dropWhile]
  unfold breakLine unselected
  dsimp only
  rw [List.filter_append, List.filter_append, List.filter_cons_of_neg (by simp [hfeed]), hspaces,
    hunindent, List.append_nil]

end FlatText

namespace Editor

variable {p q : Cursor} {above above' below below' : List Text} {left left' right right' : Text}

/-! ## Offsets -/

/-- What stands before a place before which another does is shorter. -/
theorem Parts.length_lt {lines : List Text} (hp : Parts lines p above left right below)
    (hq : Parts lines q above' left' right' below') (hle : p.le q = true) (hne : p ≠ q) :
    (Text.unlines (above ++ [left])).length < (Text.unlines (above' ++ [left'])).length := by
  rw [Text.unlines_concat, Text.unlines_concat]
  rcases hp.between hq hle with ⟨middle, rfl, rfl, -, -⟩ | ⟨middle, rfl, -⟩
  · cases middle with
    | nil => exact absurd (by rw [hp.place_eq, hq.place_eq, List.append_nil]) hne
    | cons c middle =>
      simp only [List.length_append, List.length_cons]
      omega
  · simp only [List.flatMap_append, List.flatMap_cons, List.length_append, List.length_cons]
    omega

namespace Buffer

variable {b b' : Buffer} {t u : Text}

/-- The offset of a place in the text of the buffer. -/
def offset (b : Buffer) (p : Cursor) : Nat :=
  b.lineStarts[p.row.toNat]?.getD 0 + p.column.toNat

theorem getElem?_startsAfter (pos : Nat) (above : List Text) (line : Text) (below : List Text) :
    (pos :: startsAfter pos (above ++ line :: below).dropLast)[above.length]?
      = some (pos + (above.flatMap (· ++ [.scalar '\n'])).length) := by
  induction above generalizing pos with
  | nil => rfl
  | cons l above ih =>
    have hlast : (l :: above ++ line :: below).dropLast
        = l :: (above ++ line :: below).dropLast := by
      rw [List.cons_append, List.dropLast_cons_of_ne_nil (by simp)]
    rw [hlast, List.length_cons, List.getElem?_cons_succ, startsAfter, ih, List.flatMap_cons,
      List.length_append, List.length_append, List.length_singleton]
    exact congrArg some (by omega)

/-- The offset of a place is the length of what stands before it. -/
theorem offset_of_parts (h : Parts b.lines p above left right below) :
    b.offset p = (Text.unlines (above ++ [left])).length := by
  unfold offset lineStarts
  rw [h.place_eq, h.lines_eq, Text.unlines_concat, List.length_append]
  show (0 :: startsAfter 0 (above ++ (left ++ right) :: below).dropLast)[above.length]?.getD 0 +
    left.length = _
  rw [getElem?_startsAfter, Option.getD_some, Nat.zero_add]

theorem text_eq_of_parts (h : Parts b.lines p above left right below) :
    b.text = Text.unlines (above ++ [left]) ++ Text.unlines (right :: below) := by
  unfold text
  rw [h.lines_eq, Text.unlines_around]

/-! ## What stands on either side of the cursor -/

/-- The text of the buffer is the first one up to the cursor, and the second one from there. -/
structure Reads (b : Buffer) (t u : Text) : Prop where
  text_eq : b.text = t ++ u
  offset_eq : b.offset b.cursor = t.length

theorem reads_around (above : List Text) (left right : Text) (below : List Text) :
    (around above left right below).Reads (Text.unlines (above ++ [left]))
      (Text.unlines (right :: below)) :=
  ⟨text_eq_of_parts (parts_around above left right below),
    offset_of_parts (parts_around above left right below)⟩

/-- A line that ends with a character, up to there. -/
theorem unlines_concat_append (above : List Text) (left t : Text) :
    Text.unlines (above ++ [left ++ t]) = Text.unlines (above ++ [left]) ++ t :=
  Text.unlines_around above left t []

/-- The start of a line, and the line feed before it. -/
theorem unlines_concat_nil (above : List Text) (l : Text) :
    Text.unlines (above ++ [l] ++ [[]]) = Text.unlines (above ++ [l]) ++ [.scalar '\n'] :=
  Text.unlines_append (by simp) (by simp)

/-- A line that begins with a character, from there. -/
theorem unlines_append_cons (t right : Text) (below : List Text) :
    Text.unlines ((t ++ right) :: below) = t ++ Text.unlines (right :: below) :=
  Text.unlines_around [] t right below

variable (page : Nat)

/-- Either the cursor is at the start, or some character stands before it, in the same line or the
line feed above: that is taken out, or moved over. -/
theorem left_cases (h : b.Holds b.cursor) :
    (b.backspace? = .ok none ∧ b.move page .left = .ok b ∧ ∃ u, b.Reads [] u) ∨
    ∃ shorter moved t c u, b.backspace? = .ok (some shorter) ∧ b.move page .left = .ok moved ∧
      b.Reads (t ++ [c]) u ∧ shorter.Reads t u ∧ moved.Reads t (c :: u) := by
  obtain ⟨above, left, right, below, rfl⟩ := exists_eq_around h
  rcases List.eq_nil_or_concat' left with rfl | ⟨left, c, rfl⟩
  · rcases List.eq_nil_or_concat' above with rfl | ⟨above, l, rfl⟩
    · exact Or.inl ⟨backspace?_start right below, move_left_start page right below, _,
        reads_around [] [] right below⟩
    · have hmoved := reads_around above l [] (right :: below)
      have hreads := reads_around (above ++ [l]) [] right below
      rw [Text.unlines_cons [] (List.cons_ne_nil right below)] at hmoved
      rw [unlines_concat_nil] at hreads
      exact Or.inr ⟨_, _, _, _, _, backspace?_feed above l right below,
        move_left_feed page above l right below, hreads, reads_around above l right below, hmoved⟩
  · have hmoved := reads_around above left (c :: right) below
    have hreads := reads_around above (left ++ [c]) right below
    rw [← List.singleton_append, unlines_append_cons] at hmoved
    rw [unlines_concat_append] at hreads
    exact Or.inr ⟨_, _, _, _, _, backspace?_char above left c right below,
      move_left_char page above left c right below, hreads, reads_around above left right below,
      hmoved⟩

/-- Either the cursor is at the end, or some character stands behind it, in the same line or the
line feed at its end. -/
theorem right_cases (h : b.Holds b.cursor) :
    (b.delete? = .ok none ∧ b.move page .right = .ok b ∧ ∃ t, b.Reads t []) ∨
    ∃ shorter moved t c u, b.delete? = .ok (some shorter) ∧ b.move page .right = .ok moved ∧
      b.Reads t (c :: u) ∧ shorter.Reads t u ∧ moved.Reads (t ++ [c]) u := by
  obtain ⟨above, left, right, below, rfl⟩ := exists_eq_around h
  cases right with
  | nil =>
    cases below with
    | nil =>
      exact Or.inl ⟨delete?_end above left, move_right_end page above left, _,
        reads_around above left [] []⟩
    | cons l below =>
      have hmoved := reads_around (above ++ [left]) [] l below
      have hreads := reads_around above left [] (l :: below)
      rw [unlines_concat_nil] at hmoved
      rw [Text.unlines_cons [] (List.cons_ne_nil l below)] at hreads
      exact Or.inr ⟨_, _, _, _, _, delete?_feed above left l below,
        move_right_feed page above left l below, hreads, reads_around above left l below, hmoved⟩
  | cons c right =>
    have hmoved := reads_around above (left ++ [c]) right below
    have hreads := reads_around above left (c :: right) below
    rw [unlines_concat_append] at hmoved
    rw [← List.singleton_append, unlines_append_cons] at hreads
    exact Or.inr ⟨_, _, _, _, _, delete?_char above left c right below,
      move_right_char page above left c right below, hreads, reads_around above left right below,
      hmoved⟩

theorem exists_move_left (h : b.Holds b.cursor) : ∃ b', b.move page .left = .ok b' ∧
    b'.text = b.text ∧ b'.offset b'.cursor = b.offset b.cursor - 1 := by
  rcases left_cases page h with
    ⟨-, hmove, u, hreads⟩ | ⟨-, moved, t, c, u, -, hmove, hreads, -, hafter⟩
  · exact ⟨b, hmove, rfl, by simp [hreads.offset_eq]⟩
  · refine ⟨moved, hmove, ?_, ?_⟩
    · simp [hafter.text_eq, hreads.text_eq]
    · simp [hafter.offset_eq, hreads.offset_eq]

theorem exists_move_right (h : b.Holds b.cursor) : ∃ b', b.move page .right = .ok b' ∧
    b'.text = b.text ∧ b'.offset b'.cursor = min (b.offset b.cursor + 1) b.text.length := by
  rcases right_cases page h with
    ⟨-, hmove, t, hreads⟩ | ⟨-, moved, t, c, u, -, hmove, hreads, -, hafter⟩
  · exact ⟨b, hmove, rfl, by simp [hreads.offset_eq, hreads.text_eq]⟩
  · refine ⟨moved, hmove, ?_, ?_⟩
    · simp [hafter.text_eq, hreads.text_eq]
    · simp [hafter.offset_eq, hreads.offset_eq, hreads.text_eq]

end Buffer

/-! ## The flat text of an editor -/

variable {e e' : Editor} {b : Buffer} {t u : Text}

/-- The text of an editor with the offsets of its cursor and of what is selected. -/
def flat (e : Editor) : FlatText where
  text := e.content
  cursor := e.buffer.offset e.cursor
  first := e.buffer.offset e.bounds.first
  last := e.buffer.offset e.bounds.last

theorem flat_of_selection_none (h : e.selection? = none) :
    e.flat = .unselected e.content (e.buffer.offset e.cursor) := by
  have hbounds : e.bounds = ⟨e.cursor, e.cursor⟩ := by
    unfold bounds
    rw [h]
    rfl
  unfold flat
  rw [hbounds]
  rfl

theorem flat_of_reads (h : e.buffer.Reads t u) (hnone : e.selection? = none) :
    e.flat = .unselected (t ++ u) t.length := by
  have htext : e.content = t ++ u := h.text_eq
  have hcursor : e.buffer.offset e.cursor = t.length := h.offset_eq
  rw [flat_of_selection_none hnone, htext, hcursor]

theorem selection?_eq_none (h : e.anchor = none) : e.selection? = none := by
  unfold selection?
  rw [h]

theorem flat_edited (h : b.Reads t u) : (e.edited b).flat = .unselected (t ++ u) t.length :=
  flat_of_reads h (selection?_eq_none rfl)

theorem flat_without_anchor (h : e.buffer.Reads t u) :
    { e with anchor := none }.flat = .unselected (t ++ u) t.length :=
  flat_of_reads (e := { e with anchor := none }) h rfl

/-- What stands before and behind the selection is what is left when it is taken out. -/
theorem IsWellFormed.exists_removed (h : e.IsWellFormed) : ∃ above left right below,
    e.buffer.removeBetween e.bounds = .ok (.around above left right below) ∧
      e.flat.before = Text.unlines (above ++ [left]) ∧ e.flat.first = e.flat.before.length ∧
      e.flat.behind = Text.unlines (right :: below) ∧ .scalar '\n' ∉ right := by
  obtain ⟨hfirst, hlast, hle⟩ := h.bounds
  obtain ⟨above, left, right, below, hfirst⟩ := Buffer.holds_iff_exists_parts.1 hfirst
  obtain ⟨above', left', right', below', hlast⟩ := Buffer.holds_iff_exists_parts.1 hlast
  obtain ⟨-, ⟨-, hright⟩, -⟩ := (Buffer.forall_lines_iff hlast).1 h.buffer.lines
  have hbefore : e.flat.before = Text.unlines (above ++ [left]) := by
    show e.buffer.text.take (e.buffer.offset e.bounds.first) = _
    rw [Buffer.offset_of_parts hfirst, Buffer.text_eq_of_parts hfirst, List.take_left]
  refine ⟨above, left, right', below', Buffer.removeBetween_of_parts hfirst hlast hle, hbefore, ?_,
    ?_, hright⟩
  · rw [hbefore]
    exact Buffer.offset_of_parts hfirst
  · show e.buffer.text.drop (e.buffer.offset e.bounds.last) = _
    rw [Buffer.offset_of_parts hlast, Buffer.text_eq_of_parts hlast, List.drop_left]

/-- The offsets tell whether anything is selected. -/
theorem IsWellFormed.flat_cases (h : e.IsWellFormed) :
    e.selection? = none ∧ e.flat.first = e.flat.cursor ∧ e.flat.last = e.flat.cursor ∨
    e.selection? = some e.bounds ∧ e.flat.first < e.flat.last := by
  obtain ⟨hfirst, hlast, hle⟩ := h.bounds
  obtain ⟨_, _, _, _, hfirst⟩ := Buffer.holds_iff_exists_parts.1 hfirst
  obtain ⟨_, _, _, _, hlast⟩ := Buffer.holds_iff_exists_parts.1 hlast
  rcases e.bounds_eq with ⟨hnone, hb⟩ | ⟨a, -, hne, hsome, hb⟩
  · unfold flat
    rw [hb]
    exact Or.inl ⟨hnone, rfl, rfl⟩
  · have hends : e.bounds.first ≠ e.bounds.last := by
      rcases hb with ⟨-, hb⟩ | ⟨-, hb⟩ <;> rw [hb]
      · exact hne
      · exact hne.symm
    have hlt := hfirst.length_lt hlast hle hends
    rw [← Buffer.offset_of_parts hfirst, ← Buffer.offset_of_parts hlast] at hlt
    exact Or.inr ⟨hsome, hlt⟩

theorem IsWellFormed.selectedText_eq (h : e.IsWellFormed) :
    e.selectedText = .ok e.flat.selected := by
  obtain ⟨hfirst, hlast, hle⟩ := h.bounds
  obtain ⟨_, _, _, _, hfirst⟩ := Buffer.holds_iff_exists_parts.1 hfirst
  obtain ⟨_, _, _, _, hlast⟩ := Buffer.holds_iff_exists_parts.1 hlast
  rcases h.flat_cases with ⟨hnone, hf, hl⟩ | ⟨hsome, -⟩
  · unfold selectedText FlatText.selected
    rw [hnone, hf, hl, List.drop_of_length_le (List.length_take_le _ _)]
  · obtain ⟨t, ht, hunlines⟩ := Buffer.textBetween_of_parts hfirst hlast hle
    unfold selectedText FlatText.selected
    rw [hsome]
    refine ht.trans (congrArg Except.ok ?_)
    show t = (e.buffer.text.take (e.buffer.offset e.bounds.last)).drop
      (e.buffer.offset e.bounds.first)
    rw [Buffer.offset_of_parts hfirst, Buffer.offset_of_parts hlast, Buffer.text_eq_of_parts hlast,
      List.take_left, hunlines, List.drop_left]

/-! ## Keys -/

/-- The press of the key leads to an editor with this flat text. -/
def KeyGives (e : Editor) (name : Text) (produced : Option Text) (t : FlatText) : Prop :=
  ∃ e' messages, e.pressKey (.ofName name produced) = .ok (e', messages) ∧ e'.flat = t

theorem IsWellFormed.keyGives (h : e.IsWellFormed) {name : Text} {produced : Option Text}
    (hperform : { e with status := [] }.perform (.ofName name produced) = .ok e') :
    e.KeyGives name produced e'.flat := by
  have hready : IsWellFormed { e with status := [] } := h.of_eq rfl rfl rfl rfl
  obtain ⟨_, hsame, hwell⟩ := hready.perform (KeyPress.ne_of_mem_typed name produced)
  obtain rfl := Except.ok.inj (hperform.symm.trans hsame)
  obtain ⟨top, messages, hpressed⟩ := exists_pressKey hperform hwell.buffer.cursor
  exact ⟨_, messages, hpressed, rfl⟩

namespace IsWellFormed

theorem insert_flat (h : e.IsWellFormed) (t : Text) :
    ∃ e', e.insert t = .ok e' ∧ e'.flat = e.flat.put t := by
  obtain ⟨above, left, right, below, hremoved, hbefore, hfirst, hbehind, -⟩ := h.exists_removed
  have hinsert := Buffer.insert_around above left right below t
  have hreads := Buffer.reads_around above (left ++ t) right below
  rw [Buffer.unlines_concat_append, ← hbefore, ← hbehind] at hreads
  refine ⟨{ e.edited (.around above left right below) with
    buffer := .around above (left ++ t) right below }, ?_, ?_⟩
  · unfold Editor.insert
    rw [prepareInsertion_eq h.buffer.cursor, hremoved]
    show ((Buffer.around above left right below).insert t >>= _) = _
    rw [hinsert]
    rfl
  · rw [flat_of_reads hreads (selection?_eq_none rfl), FlatText.put, hfirst, List.length_append]

theorem breakLine_flat (h : e.IsWellFormed) :
    ∃ e' n, e.breakLine = .ok e' ∧ e'.flat = e.flat.breakLine n := by
  obtain ⟨above, left, right, below, hremoved, hbefore, hfirst, hbehind, hright⟩ :=
    h.exists_removed
  have hbreak := Buffer.breakLine_around above left right below
  have hreads := Buffer.reads_around (above ++ [left])
    (List.replicate (Buffer.newIndent (left ++ right) left.length) (.scalar ' '))
    (Text.trimLeft right) below
  -- how far the new line is indented is left open
  generalize Buffer.newIndent (left ++ right) left.length = n at hbreak hreads
  rw [Text.unlines_append (by simp) (by simp), ← hbefore, Text.unlines_singleton,
    ← FlatText.unindent_unlines hright, ← hbehind] at hreads
  refine ⟨{ e.edited (.around above left right below) with
    buffer := .around (above ++ [left]) (List.replicate n (.scalar ' ')) (Text.trimLeft right)
      below }, n, ?_, ?_⟩
  · unfold Editor.breakLine
    rw [prepareInsertion_eq h.buffer.cursor, hremoved]
    show ((Buffer.around above left right below).breakLine >>= _) = _
    rw [hbreak]
    rfl
  · rw [flat_of_reads hreads (selection?_eq_none rfl), FlatText.breakLine, hfirst,
      List.length_append, List.length_cons, List.length_replicate, Nat.add_assoc, Nat.add_comm 1]

/-- What is selected is taken out alone. -/
theorem deleteOr_flat_of_selected (h : e.IsWellFormed) (hsome : e.selection? = some e.bounds)
    (change : Buffer → Except Fault (Option Buffer)) :
    ∃ e', e.deleteOr change = .ok e' ∧ e'.flat = e.flat.put [] := by
  obtain ⟨above, left, right, below, hremoved, hbefore, hfirst, hbehind, -⟩ := h.exists_removed
  have hreads := Buffer.reads_around above left right below
  rw [← hbefore, ← hbehind] at hreads
  refine ⟨e.edited (.around above left right below), ?_, ?_⟩
  · rw [deleteOr_eq, hsome]
    dsimp only
    rw [hremoved]
    rfl
  · rw [flat_edited hreads, FlatText.put, hfirst]
    simp

theorem backspace_flat (h : e.IsWellFormed) :
    ∃ e', e.deleteOr Buffer.backspace? = .ok e' ∧ e'.flat = e.flat.backspace := by
  rcases h.flat_cases with ⟨hnone, -⟩ | ⟨hsome, hlt⟩
  · rw [deleteOr_eq, hnone]
    dsimp only
    -- at the start of the text there is nothing to take out, and only the anchor goes
    rcases Buffer.left_cases e.visibleHeight h.buffer.cursor with
      ⟨hstart, -, u, hreads⟩ | ⟨shorter, -, t, c, u, hshorter, -, hreads, hafter, -⟩
    · refine ⟨{ e with anchor := none }, by rw [hstart]; rfl, ?_⟩
      rw [flat_of_reads hreads hnone, flat_without_anchor hreads]
      simp
    · refine ⟨e.edited shorter, by rw [hshorter]; rfl, ?_⟩
      rw [flat_of_reads hreads hnone, flat_edited hafter]
      simp
  · rw [FlatText.backspace, if_pos hlt]
    exact h.deleteOr_flat_of_selected hsome _

theorem delete_flat (h : e.IsWellFormed) :
    ∃ e', e.deleteOr Buffer.delete? = .ok e' ∧ e'.flat = e.flat.delete := by
  rcases h.flat_cases with ⟨hnone, -⟩ | ⟨hsome, hlt⟩
  · rw [deleteOr_eq, hnone]
    dsimp only
    rcases Buffer.right_cases e.visibleHeight h.buffer.cursor with
      ⟨hend, -, t, hreads⟩ | ⟨shorter, -, t, c, u, hshorter, -, hreads, hafter, -⟩
    · refine ⟨{ e with anchor := none }, by rw [hend]; rfl, ?_⟩
      have hpast : t.drop (t.length + 1) = [] := List.drop_of_length_le (Nat.le_succ _)
      rw [flat_of_reads hreads hnone, flat_without_anchor hreads]
      simp [hpast]
    · refine ⟨e.edited shorter, by rw [hshorter]; rfl, ?_⟩
      rw [flat_of_reads hreads hnone, flat_edited hafter]
      simp
  · rw [FlatText.delete, if_pos hlt]
    exact h.deleteOr_flat_of_selected hsome _

end IsWellFormed

/-- The keys that move the cursor to this offset do so whatever is selected, and nothing else; those
that do not select leave nothing selected. -/
theorem move_flat {m : Motion} {n : Nat} (anchor : Option Cursor)
    (hmove : ∃ b, e.buffer.move e.visibleHeight m = .ok b ∧ b.text = e.buffer.text ∧
      b.offset b.cursor = n) :
    ∃ e', { e with anchor }.move m = .ok e' ∧ e'.flat.text = e.content ∧ e'.flat.cursor = n ∧
      (anchor = none → e'.flat = .unselected e.content n) := by
  obtain ⟨b, hmove, htext, hoffset⟩ := hmove
  refine ⟨{ e with anchor, buffer := b }, ?_, htext, hoffset, ?_⟩
  · show (e.buffer.move e.visibleHeight m).map _ = _
    rw [hmove]
    rfl
  · rintro rfl
    rw [flat_of_selection_none (selection?_eq_none rfl)]
    exact congrArg₂ _ htext hoffset

section

variable {k : KeyPress}

theorem perform_other {c : CodePoint} (hkey : k.key = .other) (htyped : k.typed = some c) :
    e.perform k = e.edit fun e => e.insert [c] := by
  rw [perform, hkey, htyped]

theorem perform_tab (hkey : k.key = .tab) :
    e.perform k = e.edit fun e => e.insert "    " := by
  rw [perform, hkey]

theorem perform_backspace (hkey : k.key = .backspace) :
    e.perform k = e.edit fun e => e.deleteOr Buffer.backspace? := by
  rw [perform, hkey]

theorem perform_delete (hkey : k.key = .delete) :
    e.perform k = e.edit fun e => e.deleteOr Buffer.delete? := by
  rw [perform, hkey]

theorem perform_enter (hkey : k.key = .enter) : e.perform k = e.edit breakLine := by
  rw [perform, hkey]

theorem perform_move {m : Motion} (hkey : k.key = .move m false) :
    e.perform k = { e with anchor := none }.move m := by
  rw [perform, hkey]

theorem perform_select {m : Motion} (hkey : k.key = .move m true) :
    e.perform k = { e with anchor := some (e.anchor.getD e.cursor) }.move m := by
  rw [perform, hkey]

end

/-- A key that edits the text gives what the edit does, when the text may be edited. -/
theorem IsWellFormed.keyGives_of_edit (h : e.IsWellFormed) (hwritable : e.readOnly = false)
    {name : Text} {produced : Option Text} {change : Editor → Except Fault Editor} {t : FlatText}
    (hperform : { e with status := [] }.perform (.ofName name produced)
      = { e with status := [] }.edit change)
    (hchange : ∃ e', change { e with status := [] } = .ok e' ∧ e'.flat = t) :
    e.KeyGives name produced t := by
  obtain ⟨e', hchange, rfl⟩ := hchange
  refine h.keyGives (hperform.trans ?_)
  unfold Editor.edit
  rw [if_neg (by simp [hwritable]), hchange]

/-- What an arrow leads to: the text is the same, and the cursor is at the offset. -/
theorem IsWellFormed.keyGives_of_move (h : e.IsWellFormed) {name : Text} {produced : Option Text}
    {m : Motion} {n : Nat} {anchor : Option Cursor}
    (hperform : { e with status := [] }.perform (.ofName name produced)
      = { e with status := [], anchor }.move m)
    (hmove : ∃ b, e.buffer.move e.visibleHeight m = .ok b ∧ b.text = e.buffer.text ∧
      b.offset b.cursor = n) :
    ∃ t, e.KeyGives name produced t ∧ t.text = e.content ∧ t.cursor = n ∧
      (anchor = none → t = .unselected e.content n) := by
  obtain ⟨e', hmoved, hflat⟩ := move_flat (e := { e with status := [] }) anchor hmove
  exact ⟨e'.flat, h.keyGives (hperform.trans hmoved), hflat⟩

/--
**The keys of a writable editor act on its flat text.** What is typed takes the place of the
selection, which the keys that delete take out, or else one character; to break a line puts a line
feed and spaces, and drops no character that is not blank; the arrows move the cursor by one, and stop
at the ends. The selected text is the part of the flat text that is selected, if only nothing.
-/
theorem keys_act_on_flat (h : e.Reachable) (hwritable : e.readOnly = false) :
    (∀ name c, EditorKey.ofName name = .other → c.isPrintable = true →
      e.KeyGives name (some [c]) (e.flat.put [c])) ∧
    (∀ produced,
      e.KeyGives "tab" produced (e.flat.put "    ") ∧
      e.KeyGives "backspace" produced e.flat.backspace ∧
      e.KeyGives "delete" produced e.flat.delete ∧
      (∃ n, e.KeyGives "enter" produced (e.flat.breakLine n) ∧
        (e.flat.breakLine n).text.filter (!·.isBlank)
          = e.flat.before.filter (!·.isBlank) ++ e.flat.behind.filter (!·.isBlank)) ∧
      e.KeyGives "left" produced (.unselected e.content (e.flat.cursor - 1)) ∧
      e.KeyGives "right" produced
        (.unselected e.content (min (e.flat.cursor + 1) e.content.length)) ∧
      (∃ t, e.KeyGives "shift+left" produced t ∧ t.text = e.content ∧
        t.cursor = e.flat.cursor - 1) ∧
      ∃ t, e.KeyGives "shift+right" produced t ∧ t.text = e.content ∧
        t.cursor = min (e.flat.cursor + 1) e.content.length) ∧
    e.selectedText = .ok e.flat.selected ∧
    (e.selection? = none ∧ e.flat.first = e.flat.cursor ∧ e.flat.last = e.flat.cursor ∨
      e.selection? = some e.bounds ∧ e.flat.first < e.flat.last) := by
  have hwell := h.isWellFormed
  have hready : IsWellFormed { e with status := [] } := hwell.of_eq rfl rfl rfl rfl
  have hleft := Buffer.exists_move_left e.visibleHeight hwell.buffer.cursor
  have hright := Buffer.exists_move_right e.visibleHeight hwell.buffer.cursor
  refine ⟨fun name c hother hprintable => ?_, fun produced => ⟨?_, ?_, ?_, ?_, ?_, ?_, ?_, ?_⟩,
    hwell.selectedText_eq, hwell.flat_cases⟩
  · have htyped : (KeyPress.ofName name (some [c])).typed = some c := if_pos hprintable
    exact hwell.keyGives_of_edit hwritable (perform_other hother htyped) (hready.insert_flat [c])
  · have hkey : EditorKey.ofName "tab" = .tab := by decide +kernel
    exact hwell.keyGives_of_edit hwritable (perform_tab hkey) (hready.insert_flat "    ")
  · have hkey : EditorKey.ofName "backspace" = .backspace := by decide +kernel
    exact hwell.keyGives_of_edit hwritable (perform_backspace hkey) hready.backspace_flat
  · have hkey : EditorKey.ofName "delete" = .delete := by decide +kernel
    exact hwell.keyGives_of_edit hwritable (perform_delete hkey) hready.delete_flat
  · have hkey : EditorKey.ofName "enter" = .enter := by decide +kernel
    obtain ⟨e', n, hbreak⟩ := hready.breakLine_flat
    exact ⟨n, hwell.keyGives_of_edit hwritable (perform_enter hkey) ⟨e', hbreak⟩,
      FlatText.filter_breakLine e.flat n⟩
  · have hkey : EditorKey.ofName "left" = .move .left false := by decide +kernel
    obtain ⟨t, hgives, -, -, hnone⟩ :=
      hwell.keyGives_of_move (perform_move (k := .ofName "left" produced) hkey) hleft
    exact hnone rfl ▸ hgives
  · have hkey : EditorKey.ofName "right" = .move .right false := by decide +kernel
    obtain ⟨t, hgives, -, -, hnone⟩ :=
      hwell.keyGives_of_move (perform_move (k := .ofName "right" produced) hkey) hright
    exact hnone rfl ▸ hgives
  · have hkey : EditorKey.ofName "shift+left" = .move .left true := by decide +kernel
    obtain ⟨t, hgives, htext, hcursor, -⟩ :=
      hwell.keyGives_of_move (perform_select (k := .ofName "shift+left" produced) hkey) hleft
    exact ⟨t, hgives, htext, hcursor⟩
  · have hkey : EditorKey.ofName "shift+right" = .move .right true := by decide +kernel
    obtain ⟨t, hgives, htext, hcursor, -⟩ :=
      hwell.keyGives_of_move (perform_select (k := .ofName "shift+right" produced) hkey) hright
    exact ⟨t, hgives, htext, hcursor⟩

/-- From the middle of one line to the middle of the next a text is selected. A character takes its
place, and a deletion joins what is left of the lines. -/
theorem keys_act_on_flat_across_lines :
    let e : Editor := ofText "ab\ncd"
    ∃ moved messages selected messages',
      e.pressKey (.ofName "right" none) = .ok (moved, messages) ∧
      moved.pressKey (.ofName "shift+down" none) = .ok (selected, messages') ∧
      selected.flat = ⟨"ab\ncd", 4, 1, 4⟩ ∧ selected.selectedText = .ok (Text.ofString "b\nc") ∧
      selected.KeyGives "x" (some "x") ⟨"axd", 2, 2, 2⟩ ∧
      selected.KeyGives "delete" none ⟨"ad", 1, 1, 1⟩ := by
  intro e
  have hnew : e.Reachable := .new "ab\ncd" none 0 false false 40 6
  obtain ⟨⟨moved, messages⟩, hmoved, -⟩ := yields_pressKey hnew.isWellFormed "right" none
  have hreached := hnew.pressKey "right" none hmoved
  obtain ⟨⟨selected, messages'⟩, hselected, -⟩ :=
    yields_pressKey hreached.isWellFormed "shift+down" none
  have hrun : (do
      let r ← e.pressKey (.ofName "right" none)
      let r' ← r.1.pressKey (.ofName "shift+down" none)
      return (r'.1.readOnly, r'.1.flat)) = .ok (false, ⟨"ab\ncd", 4, 1, 4⟩) := by
    decide +kernel
  obtain ⟨r, hr, hrun⟩ := exists_of_bind hrun
  obtain rfl := Except.ok.inj (hmoved.symm.trans hr)
  obtain ⟨r', hr', hrun⟩ := exists_of_bind hrun
  obtain rfl := Except.ok.inj (hselected.symm.trans hr')
  obtain ⟨hwritable, hflat⟩ := Prod.mk.inj (Except.ok.inj hrun)
  obtain ⟨htyped, hkeys, htext, -⟩ := keys_act_on_flat
    (hreached.pressKey "shift+down" none hselected) hwritable
  have hx := htyped "x" (.scalar 'x') (by decide +kernel) (by decide +kernel)
  have hdelete := (hkeys none).2.2.1
  rw [hflat] at htext hx hdelete
  exact ⟨moved, messages, selected, messages', hmoved, hselected, hflat, htext, hx, hdelete⟩

end Editor

end LangFile
