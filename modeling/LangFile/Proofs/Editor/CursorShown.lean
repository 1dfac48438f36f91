import LangFile.Proofs.Editor.RowPieces

/-!
# Where the cursor is drawn

A key press scrolls until the rows of the lines above the cursor's leave a row free, which is where
the cursor's line begins. Of that line itself more rows may stand before the cursor than there is
room for: then the cursor is not on the screen, which looks as if the editor had no focus.

1. The row of the cursor (`cursorRow`), and that a cursor on the screen is shown
   (`showsCursor_of_onScreen`).
2. Without it the drawing has no cursor (`contentRows_unfocused`).
3. Scrolling frees the row in which the cursor's line begins (`rowsAbove_showCursor`).
4. All together (`cursor_shown_after_key`), and a cursor that is not shown (`cursor_below_screen`).
-/

namespace LangFile.Editor

open RichText

variable {e e' : Editor} {k : KeyPress} {messages : List EditorMessage}

/-! ## The row of the cursor -/

theorem IsWellFormed.exists_cursor (h : e.IsWellFormed) :
    ∃ (row column : Nat) (hrow : row < e.buffer.lines.length),
      e.cursor = ⟨row, column⟩ ∧ column ≤ e.buffer.lines[row].length :=
  h.buffer.cursor

/-- The line of the cursor. -/
def cursorLine (e : Editor) : Text := e.buffer.lines[e.cursor.row.toNat]?.getD []

/-- The character at the cursor; a blank at the end of the line. -/
def cursorChar (e : Editor) : CodePoint :=
  e.cursorLine[e.cursor.column.toNat]?.getD (.scalar ' ')

/-- The number of rows that the lines above the cursor's take on the screen. -/
def rowsAbove (e : Editor) : Nat :=
  (((e.buffer.lines.take e.cursor.row.toNat).drop e.firstLine).map
    (Segment.rows (max 1 e.textWidth))).sum

/-- The row of its own line in which the cursor is. -/
def cursorIndex (e : Editor) : Nat :=
  Segment.index (max 1 e.textWidth) e.cursorLine e.cursor.column.toNat

/-- The row of the screen in which the cursor is. -/
def cursorRow (e : Editor) : Nat := e.rowsAbove + e.cursorIndex

/-- The cursor's row is one of those above the status line. -/
def CursorOnScreen (e : Editor) : Prop :=
  e.firstLine ≤ e.cursor.row.toNat ∧ e.cursorRow < e.height - 1

instance (e : Editor) : Decidable e.CursorOnScreen := inferInstanceAs (Decidable (_ ∧ _))

/-- The cursor is drawn: below as many rows as there are above its own, behind the number of its row
and the characters that this has before it, stands its character, reversed. -/
def ShowsCursor (e : Editor) (drawn : RichText) : Prop :=
  ∃ (rows : List Text) (s : Segment) (before right : Text) (style : Style),
    rows.length = e.cursorRow ∧ (∀ t ∈ rows, .scalar '\n' ∉ t) ∧
    (Segment.wrap (max 1 e.textWidth) e.cursorLine)[e.cursorIndex]? = some s ∧
    before = rows.flatMap (· ++ [.scalar '\n']) ++
      sanitize ((e.gutter e.cursor.row.toNat (e.cursorIndex = 0)).1 ++
        (e.cursorLine.take e.cursor.column.toNat).drop s.start) ∧
    drawn.plain = before ++ e.cursorChar :: right ∧
    ⟨before.length, before.length + 1, style + cursorStyle⟩ ∈ drawn.spans

theorem reverse_add_cursorStyle (style : Style) : (style + cursorStyle).reverse = true :=
  Bool.or_true _

theorem add_cursorStyle_ne_null (style : Style) : style + cursorStyle ≠ .null := by
  intro hnull
  have hreverse := reverse_add_cursorStyle style
  rw [hnull] at hreverse
  exact absurd hreverse Bool.noConfusion

section

variable {row column : Nat}

theorem shownRows_eq_append (hle : e.firstLine ≤ row) (hrow : row < e.buffer.lines.length) :
    e.shownRows = e.rowsFrom (max 1 e.textWidth) e.firstLine (row - e.firstLine) ++
      (e.textRows (max 1 e.textWidth) row ++
        e.rowsFrom (max 1 e.textWidth) (row + 1) (e.buffer.lines.length - (row + 1))) := by
  have hlines : e.buffer.lines.length - e.firstLine
      = (row - e.firstLine) + ((e.buffer.lines.length - (row + 1)) + 1) := by omega
  unfold shownRows
  rw [hlines, rowsFrom_add, rowsFrom_succ, Nat.add_sub_cancel' hle]

/-- The rows of some lines, counted line by line. -/
theorem length_rowsFrom {avail lines : Nat} (hend : row + lines ≤ e.buffer.lines.length) :
    (e.rowsFrom avail row lines).length
      = (((e.buffer.lines.drop row).take lines).map (Segment.rows avail)).sum := by
  induction lines generalizing row with
  | zero => simp [rowsFrom]
  | succ lines ih =>
    have hrow : row < e.buffer.lines.length := by omega
    rw [rowsFrom_succ, List.length_append, length_textRows, ih (by omega),
      List.drop_eq_getElem_cons hrow, List.getElem?_eq_getElem hrow]
    rfl

theorem length_rowsFrom_firstLine (hcursor : e.cursor = ⟨row, column⟩) (hle : e.firstLine ≤ row)
    (hrow : row < e.buffer.lines.length) :
    (e.rowsFrom (max 1 e.textWidth) e.firstLine (row - e.firstLine)).length = e.rowsAbove := by
  rw [length_rowsFrom (by omega)]
  unfold rowsAbove
  rw [hcursor, List.drop_take]
  rfl

theorem cursorLine_eq (hcursor : e.cursor = ⟨row, column⟩) (hrow : row < e.buffer.lines.length) :
    e.cursorLine = e.buffer.lines[row] := by
  unfold cursorLine
  rw [hcursor]
  simp [hrow]

/-- **The cursor's row holds the cursor,** reversed. -/
theorem exists_cursor_row (hfocused : e.focused = true) (hcursor : e.cursor = ⟨row, column⟩)
    (hrow : row < e.buffer.lines.length) (hcolumn : column ≤ e.buffer.lines[row].length)
    (hle : e.firstLine ≤ row) {styles : List Style} (hstyles : e.drawnStyles row = .ok styles) :
    ∃ s before style after,
      (Segment.wrap (max 1 e.textWidth) e.cursorLine)[e.cursorIndex]? = some s ∧
      e.shownRows[e.cursorRow]? = some (e.gutter row (e.cursorIndex = 0) :: (before ++
        ([e.cursorChar], style + cursorStyle) :: after)) ∧
      written before = (e.cursorLine.take column).drop s.start := by
  have hline := cursorLine_eq hcursor hrow
  have hindex : e.cursorIndex = Segment.index (max 1 e.textWidth) e.cursorLine column := by
    unfold cursorIndex
    rw [hcursor]
    rfl
  have hchar : e.cursorChar = e.cursorLine[column]?.getD (.scalar ' ') := by
    unfold cursorChar
    rw [hcursor]
    rfl
  obtain ⟨s, before, style, after, hs, hpiece, hbefore⟩ :=
    exists_cursor_piece (Nat.le_max_left 1 e.textWidth) hfocused hcursor hcolumn
      (length_of_drawnStyles hrow hstyles)
  rw [← hline, ← hindex] at hs hpiece
  rw [hline, ← textRows_of_drawn hrow hstyles, ← hline, ← hchar] at hpiece
  refine ⟨s, before, style, after, hs, ?_, by rw [hbefore, hline]⟩
  have hin := (List.getElem?_eq_some_iff.1 hpiece).1
  have habove := length_rowsFrom_firstLine hcursor hle hrow
  rw [shownRows_eq_append hle hrow, cursorRow, ← habove, List.getElem?_append_right (by omega),
    Nat.add_sub_cancel_left, List.getElem?_append_left hin, hpiece]

/-- A row of the screen stands below those above it. -/
theorem exists_content_eq (e : Editor) {i : Nat} {r : Row} (hr : e.shownRows[i]? = some r)
    (hroom : i < e.height - 1) : ∃ below,
      e.contentRows.flatten ++ e.statusLine = (e.shownRows.take i).flatten ++ (r ++ below) := by
  obtain ⟨hi, rfl⟩ := List.getElem?_eq_some_iff.1 hr
  have hsplit := drop_take_eq_append (Nat.zero_le i) hroom hi
  rw [List.drop_zero, List.drop_zero] at hsplit
  unfold contentRows
  dsimp only
  rw [hsplit]
  simp only [List.flatten_append, List.flatten_cons, List.append_assoc]
  exact ⟨_, rfl⟩

/-- **A cursor on the screen is shown,** if its character can be. -/
theorem showsCursor_of_onScreen (hwell : e.IsWellFormed) (hfocused : e.focused = true)
    (hon : e.CursorOnScreen) (hchar : isTerminalControl e.cursorChar = false)
    (hstyled : e.IsStyled) :
    e.ShowsCursor (.ofPieces (e.contentRows.flatten ++ e.statusLine)) := by
  obtain ⟨row, column, hrow, hcursor, hcolumn⟩ := hwell.exists_cursor
  obtain ⟨hle, hroom⟩ := hon
  have hrowNat : e.cursor.row.toNat = row := by rw [hcursor]; rfl
  have hcolumnNat : e.cursor.column.toNat = column := by rw [hcursor]; rfl
  rw [hrowNat] at hle
  obtain ⟨styles, hstyles⟩ := hstyled (row - e.firstLine) (by omega) (by
    rw [length_rowsFrom_firstLine hcursor hle hrow]
    exact Nat.lt_of_le_of_lt (Nat.le_add_right _ _) hroom)
  rw [Nat.add_sub_cancel' hle] at hstyles
  obtain ⟨s, before, style, after, hs, hshown, hbefore⟩ :=
    exists_cursor_row hfocused hcursor hrow hcolumn hle hstyles
  have hin := (List.getElem?_eq_some_iff.1 hshown).1
  -- the rows above are lines of text
  have habove : ∀ r ∈ e.shownRows.take e.cursorRow, IsLine r := fun r hr =>
    isLine_of_mem_rowsFrom hwell.buffer (List.mem_of_mem_take hr)
  obtain ⟨texts, hlength, hfree, htexts⟩ := exists_texts_of_isLine habove
  obtain ⟨below, hcontent⟩ := e.exists_content_eq hshown hroom
  rw [List.cons_append, List.append_assoc, List.cons_append, ← List.cons_append,
    ← List.append_assoc] at hcontent
  have hleft : sanitize (written ((e.shownRows.take e.cursorRow).flatten ++
      e.gutter row (e.cursorIndex = 0) :: before))
      = texts.flatMap (· ++ [.scalar '\n']) ++
        sanitize ((e.gutter row (e.cursorIndex = 0)).1 ++
          (e.cursorLine.take column).drop s.start) := by
    rw [written_append, sanitize_append, htexts, written_cons, hbefore]
  have hpiece := ofPieces_append_cons ((e.shownRows.take e.cursorRow).flatten ++
    e.gutter row (e.cursorIndex = 0) :: before) (after ++ below) (List.cons_ne_nil e.cursorChar [])
    (add_cursorStyle_ne_null style)
  have hclean : sanitize [e.cursorChar] = [e.cursorChar] := by simp [sanitize, hchar]
  rw [← hcontent, hclean, hleft, ← hrowNat, ← hcolumnNat] at hpiece
  refine ⟨texts, s, _, _, style, ?_, hfree, hs, rfl, hpiece.1, hpiece.2⟩
  rw [hlength, List.length_take, Nat.min_eq_left (Nat.le_of_lt hin)]

/-! ## Without the cursor -/

theorem take_shownRows (hcursor : e.cursor = ⟨row, column⟩) (hle : e.firstLine ≤ row)
    (hrow : row < e.buffer.lines.length) : e.shownRows.take e.cursorRow
      = e.rowsFrom (max 1 e.textWidth) e.firstLine (row - e.firstLine) ++
          (e.textRows (max 1 e.textWidth) row).take e.cursorIndex := by
  have hindex : e.cursorIndex ≤ (e.textRows (max 1 e.textWidth) row).length := by
    rw [length_textRows, List.getElem?_eq_getElem hrow, Option.getD_some,
      ← cursorLine_eq hcursor hrow]
    exact Nat.le_trans (Nat.min_le_right _ _) (Nat.sub_le _ _)
  have habove := length_rowsFrom_firstLine hcursor hle hrow
  rw [shownRows_eq_append hle hrow, cursorRow, ← habove, List.take_append,
    List.take_of_length_le (Nat.le_add_right _ _), Nat.add_sub_cancel_left,
    List.take_append_of_le_length hindex]

/-- The rows above the cursor look as they do without focus. -/
theorem take_shownRows_unfocused (hcursor : e.cursor = ⟨row, column⟩) (hle : e.firstLine ≤ row)
    (hrow : row < e.buffer.lines.length) :
    e.shownRows.take e.cursorRow = e.unfocused.shownRows.take e.cursorRow := by
  have habove : e.rowsFrom (max 1 e.textWidth) e.firstLine (row - e.firstLine)
      = e.unfocused.rowsFrom (max 1 e.textWidth) e.firstLine (row - e.firstLine) := by
    refine rowsFrom_unfocused fun i hi heq => ?_
    rw [hcursor] at heq
    dsimp only at heq
    omega
  have hindex : e.cursorIndex
      = Segment.index (max 1 e.textWidth) (e.buffer.lines[row]?.getD []) column := by
    unfold cursorIndex
    rw [cursorLine_eq hcursor hrow, hcursor, List.getElem?_eq_getElem hrow]
    rfl
  have hline : (e.textRows (max 1 e.textWidth) row).take e.cursorIndex
      = (e.unfocused.textRows (max 1 e.textWidth) row).take e.cursorIndex :=
    take_eq_take fun i hi => getElem?_lineRows_unfocused hcursor (hindex ▸ hi)
  have hshown := take_shownRows (e := e.unfocused) hcursor hle hrow
  rw [take_shownRows hcursor hle hrow, habove, hline]
  exact hshown.symm

end

/-- **Without a cursor on the screen it looks as it does without focus.** -/
theorem contentRows_unfocused (hwell : e.IsWellFormed) (hoff : ¬e.CursorOnScreen) :
    e.contentRows = e.unfocused.contentRows := by
  obtain ⟨row, column, hrow, hcursor, -⟩ := hwell.exists_cursor
  have hrows : e.shownRows.take (e.height - 1) = e.unfocused.shownRows.take (e.height - 1) := by
    -- the cursor is below the screen, or in a line above it
    by_cases hle : e.firstLine ≤ row
    · have hroom : e.height - 1 ≤ e.cursorRow := by
        refine Nat.le_of_not_lt fun hlt => hoff ⟨?_, hlt⟩
        rw [hcursor]
        exact hle
      rw [← Nat.min_eq_left hroom, ← List.take_take, ← List.take_take,
        take_shownRows_unfocused hcursor hle hrow]
    · refine congrArg _ (rowsFrom_unfocused fun i _ heq => ?_)
      rw [hcursor] at heq
      dsimp only at heq
      omega
  unfold contentRows
  dsimp only
  rw [hrows]
  rfl

/-! ## Scrolling -/

theorem scrollOff_cons (visible h : Nat) (heights : List Nat) :
    scrollOff visible (h :: heights)
      = if visible ≤ (h :: heights).sum then scrollOff visible heights + 1 else 0 :=
  rfl

theorem scrollOff_le (visible : Nat) (heights : List Nat) :
    scrollOff visible heights ≤ heights.length := by
  induction heights with
  | nil => exact Nat.le_refl 0
  | cons h heights ih =>
    rw [scrollOff_cons]
    split
    · exact Nat.succ_le_succ ih
    · exact Nat.zero_le _

/-- What stays on the screen leaves a row free. -/
theorem sum_drop_scrollOff {visible : Nat} (hvisible : 0 < visible) (heights : List Nat) :
    (heights.drop (scrollOff visible heights)).sum < visible := by
  induction heights with
  | nil => exact hvisible
  | cons h heights ih =>
    rw [scrollOff_cons]
    split
    · exact ih
    · next hfits => exact Nat.lt_of_not_le hfits

/-- Scrolling to the cursor never scrolls past its line, and frees a row below the lines above it.
-/
theorem exists_showCursor {row column : Nat} (hcursor : e.cursor = ⟨row, column⟩)
    (hrow : row < e.buffer.lines.length) (avail : Nat) :
    ∃ top ≤ row, e.showCursor avail = { e with top } ∧
      (((e.buffer.lines.take row).drop top).map (Segment.rows avail)).sum < e.visibleHeight := by
  let first := min e.top row
  let heights := ((e.buffer.lines.take row).drop first).map (Segment.rows avail)
  refine ⟨first + scrollOff e.visibleHeight heights, ?_, ?_, ?_⟩
  · have hoff := scrollOff_le e.visibleHeight heights
    have hlength : heights.length = row - first := by
      simp only [heights, List.length_map, List.length_drop, List.length_take]
      omega
    have hfirst : first ≤ row := Nat.min_le_right _ _
    omega
  · unfold showCursor
    rw [hcursor]
    rfl
  · rw [← List.drop_drop, List.map_drop]
    exact sum_drop_scrollOff (Nat.lt_of_lt_of_le Nat.one_pos (Nat.le_max_left 1 _)) heights

/-- **The row in which the cursor's line begins is on the screen** after scrolling to it. -/
theorem rowsAbove_showCursor (hwell : e.IsWellFormed) (havail : 0 < e.textWidth) :
    (e.showCursor e.textWidth).firstLine ≤ e.cursor.row.toNat ∧
      (e.showCursor e.textWidth).rowsAbove < e.visibleHeight := by
  obtain ⟨row, column, hrow, hcursor, -⟩ := hwell.exists_cursor
  obtain ⟨top, hle, hscrolled, hfree⟩ := exists_showCursor hcursor hrow e.textWidth
  have hfirst : firstLine { e with top } = top :=
    Nat.min_eq_left (Nat.le_trans hle (Nat.le_sub_one_of_lt hrow))
  have habove : rowsAbove { e with top }
      = (((e.buffer.lines.take row).drop top).map (Segment.rows e.textWidth)).sum := by
    have hwidth : max 1 (textWidth { e with top }) = e.textWidth := Nat.max_eq_right havail
    have hrowNat : (cursor { e with top }).row.toNat = row := congrArg (·.row.toNat) hcursor
    unfold rowsAbove
    rw [hfirst, hwidth, hrowNat]
  rw [hscrolled, hfirst, habove, hcursor]
  exact ⟨hle, hfree⟩

/-- After a key that leaves room for text the cursor is scrolled to. -/
theorem exists_showCursor_of_pressKey (h : e.pressKey k = .ok (e', messages))
    (hwidth : 0 < e'.textWidth) :
    ∃ shown : Editor, 0 < shown.textWidth ∧ e' = shown.showCursor shown.textWidth := by
  obtain ⟨performed, -, h⟩ := exists_of_bind h
  obtain ⟨place, -, h⟩ := exists_of_bind h
  obtain ⟨buffer, -, h⟩ := exists_of_bind h
  let clamped : Editor := { performed with buffer }
  have hshown : e' = if 0 < clamped.textWidth then clamped.showCursor clamped.textWidth
      else clamped := by
    cases place with
    | none =>
      obtain ⟨rfl, -⟩ := Prod.mk.inj (Except.ok.inj h)
      rfl
    | some place =>
      obtain ⟨before, -, h⟩ := exists_of_bind h
      obtain ⟨rfl, -⟩ := Prod.mk.inj (Except.ok.inj h)
      rfl
  by_cases hroom : 0 < clamped.textWidth
  · rw [if_pos hroom] at hshown
    exact ⟨clamped, hroom, hshown⟩
  · rw [if_neg hroom] at hshown
    rw [hshown] at hwidth
    exact absurd hwidth hroom

/-! ## The cursor after a key -/

/-- The editor is drawn like this. -/
def Draws (e : Editor) (drawn : RichText) : Prop := ∃ e', e.render = .ok (e', drawn)

/-- A key press leaves focus and size as they are. -/
theorem Pressed.viewport (h : Pressed k e e') :
    e'.focused = e.focused ∧ e'.width = e.width ∧ e'.height = e.height := by
  cases h with
  | passed | edited => exact ⟨rfl, rfl, rfl⟩
  | undone _ _ _ hundo => rw [undoEdit_of_cons hundo]; exact ⟨rfl, rfl, rfl⟩
  | redone _ _ _ hredo => rw [redoEdit_of_cons hredo]; exact ⟨rfl, rfl, rfl⟩

/--
**After a key the row in which the cursor's line begins is on the screen, and the cursor is shown if
its own row is.** Of the cursor's line as many rows may stand above the cursor as fill the screen;
then the screen looks as it does without focus.
-/
theorem cursor_shown_after_key (h : e.Reachable) (hfocused : e.focused = true)
    (hheight : 2 ≤ e.height) (hwidth : 10 ≤ e.width) (name : Text) (produced : Option Text) :
    ∃ e' messages, e.pressKey (.ofName name produced) = .ok (e', messages) ∧
      (0 < e'.textWidth → e'.firstLine ≤ e'.cursor.row.toNat ∧ e'.rowsAbove < e'.height - 1) ∧
      (e.OverlaysFit → ∃ drawn, e'.Draws drawn) ∧
      ∀ drawn, e'.Draws drawn →
        (e'.CursorOnScreen → isTerminalControl e'.cursorChar = false → e'.ShowsCursor drawn) ∧
        (¬e'.CursorOnScreen → ∀ drawn', e'.unfocused.Draws drawn' → drawn' = drawn) := by
  obtain ⟨⟨e', messages⟩, hpressed, hwell⟩ := yields_pressKey h.isWellFormed name produced
  have hreached : e'.Reachable := h.pressKey name produced hpressed
  have hstep := pressed_of_pressKey hpressed
  obtain ⟨hfocus, hwide, hhigh⟩ := hstep.viewport
  have hheight' : 2 ≤ e'.height := by rwa [hhigh]
  have hwidth' : 10 ≤ e'.width := by rwa [hwide]
  refine ⟨e', messages, hpressed, fun hroom => ?_, fun hfits => ?_, fun drawn hdrawn => ?_⟩
  · obtain ⟨shown, havail, rfl⟩ := exists_showCursor_of_pressKey hpressed hroom
    have hwell' : shown.IsWellFormed := hwell.of_eq rfl rfl rfl rfl
    obtain ⟨hfirst, habove⟩ := rowsAbove_showCursor hwell' havail
    have hfree : 1 ≤ (shown.showCursor shown.textWidth).height - 1 := by omega
    exact ⟨hfirst, Nat.lt_of_lt_of_eq habove (Nat.max_eq_right hfree)⟩
  · obtain ⟨e'', drawn, hdrawn⟩ := (hfits.of_pressed hstep).exists_render hwell
    exact ⟨drawn, e'', hdrawn⟩
  · obtain ⟨e'', hdrawn⟩ := hdrawn
    obtain ⟨rfl, hstyled⟩ :=
      (of_render hreached.isCoherent hwell.buffer.lines_ne_nil hdrawn).2 hheight' hwidth'
    refine ⟨fun hon hchar => ?_, fun hoff drawn' hdrawn' => ?_⟩
    · exact showsCursor_of_onScreen hwell (hfocus.trans hfocused) hon hchar hstyled
    · obtain ⟨_, hdrawn'⟩ := hdrawn'
      have hreached' : e'.unfocused.Reachable := hreached.resize e'.width e'.height false
      obtain ⟨rfl, -⟩ :=
        (of_render hreached'.isCoherent hwell.buffer.lines_ne_nil hdrawn').2 hheight' hwidth'
      rw [contentRows_unfocused hwell hoff]
      rfl

/-- The end of a line of wide characters is in its second row. -/
theorem cursor_shown_after_key_wrapped :
    let e : Editor := { ofText "가나다라\nb" with width := 10, height := 4, focused := true }
    ∃ e' messages drawn, e.pressKey (.ofName "end" none) = .ok (e', messages) ∧
      e'.Draws drawn ∧ e'.cursor = ⟨0, 4⟩ ∧ e'.cursorRow = 1 ∧ e'.ShowsCursor drawn := by
  intro e
  have hnew : e.Reachable := .new "가나다라\nb" none 0 false true 10 4
  obtain ⟨e', messages, hpressed, -, hdraws, hshown⟩ :=
    cursor_shown_after_key hnew rfl (by decide) (by decide) "end" none
  obtain ⟨drawn, hdrawn⟩ := hdraws ⟨Overlay.fits_nil, Overlay.fits_nil⟩
  have hrun : (e.pressKey (.ofName "end" none)).map (fun r =>
      (r.1.cursor, r.1.cursorRow, decide r.1.CursorOnScreen, isTerminalControl r.1.cursorChar))
      = .ok (⟨0, 4⟩, 1, true, false) := by
    decide +kernel
  obtain ⟨r, hr, hrun⟩ := exists_of_map hrun
  obtain rfl := Except.ok.inj (hpressed.symm.trans hr)
  simp only [Prod.mk.injEq, decide_eq_true_eq] at hrun
  obtain ⟨hcursor, hrow, hon, hchar⟩ := hrun
  exact ⟨e', messages, drawn, hpressed, hdrawn, hcursor, hrow, (hshown drawn hdrawn).1 hon hchar⟩

/-- The last line fills the screen but for a row. At its end the cursor is in the second row of the
line, which is below the screen although the text could be scrolled further. -/
theorem cursor_below_screen :
    let e : Editor := { ofText "a\nb\ncccccccc" with width := 10, height := 4, focused := true }
    ∃ e₁ m₁ e₂ m₂ e₃ m₃ drawn, e.pressKey (.ofName "down" none) = .ok (e₁, m₁) ∧
      e₁.pressKey (.ofName "down" none) = .ok (e₂, m₂) ∧ e₂.Reachable ∧ e₂.focused = true ∧
      e₂.pressKey (.ofName "end" none) = .ok (e₃, m₃) ∧ e₃.Draws drawn ∧
      e₃.top = 0 ∧ e₃.cursor = ⟨2, 8⟩ ∧ (∀ s ∈ drawn.spans, s.style.reverse = false) ∧
      ¬e₃.ShowsCursor drawn := by
  intro e
  have hnew : e.Reachable := .new "a\nb\ncccccccc" none 0 false true 10 4
  have hrun : (do
      let r₁ ← e.pressKey (.ofName "down" none)
      let r₂ ← r₁.1.pressKey (.ofName "down" none)
      let r₃ ← r₂.1.pressKey (.ofName "end" none)
      let r ← r₃.1.render
      return (r₂.1.focused, r₃.1.top, r₃.1.cursor, r.2.spans.all fun s => !s.style.reverse))
      = .ok (true, 0, ⟨2, 8⟩, true) := by
    decide +kernel
  obtain ⟨⟨e₁, m₁⟩, h₁, hrun⟩ := exists_of_bind hrun
  obtain ⟨⟨e₂, m₂⟩, h₂, hrun⟩ := exists_of_bind hrun
  obtain ⟨⟨e₃, m₃⟩, h₃, hrun⟩ := exists_of_bind hrun
  obtain ⟨⟨e₄, drawn⟩, h₄, hrun⟩ := exists_of_bind hrun
  have hresult := Except.ok.inj hrun
  simp only [Prod.mk.injEq] at hresult
  obtain ⟨hfocused, htop, hcursor, hplain⟩ := hresult
  have hnone : ∀ s ∈ drawn.spans, s.style.reverse = false := by simpa using hplain
  have hreached : e₂.Reachable :=
    (hnew.pressKey "down" none h₁).pressKey "down" none h₂
  refine ⟨e₁, m₁, e₂, m₂, e₃, m₃, drawn, h₁, h₂, hreached, hfocused, h₃, ⟨e₄, h₄⟩, htop, hcursor,
    hnone, ?_⟩
  rintro ⟨rows, s, before, right, style, -, -, -, -, -, hspan⟩
  have hreverse := hnone _ hspan
  rw [reverse_add_cursorStyle] at hreverse
  exact absurd hreverse Bool.noConfusion

end LangFile.Editor
