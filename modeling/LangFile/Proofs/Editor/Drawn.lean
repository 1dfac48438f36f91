import LangFile.Proofs.Editor.RowPieces

/-!
# Every character of the screen

The screen is made character by character: each one has the sum of the styles that lie over its
place, and the rows of a line hold its characters in order, behind a margin of one width. Grouping
to pieces, wrapping and the styles that are kept leave no trace.

1. What lies over a place (`layers`), which is what a row is drawn in (`getElem?_drawnStyles`).
2. Wrapping cuts a line and loses nothing (`flatMap_wrap`).
3. The characters of the rows (`glyphRows`) and of the screen (`screen`).
4. Drawing gives these (`render_exact`).
-/

namespace LangFile.Editor

open RichText

variable {e e' : Editor}

/-! ## What lies over a place -/

/-- A character of the screen with its style. -/
abbrev Glyph := CodePoint × Style

/-- The line of a row. -/
def lineAt (e : Editor) (row : Nat) : Text := e.buffer.lines[row]?.getD []

theorem lineAt_eq {row : Nat} (hrow : row < e.buffer.lines.length) :
    e.lineAt row = e.buffer.lines[row] := by
  unfold lineAt
  rw [List.getElem?_eq_getElem hrow, Option.getD_some]

/-- The piece lies over a column. -/
def Piece.liesOver {α : Type} (p : Piece α) (column : Nat) : Bool :=
  p.start ≤ column && (column : Int) < p.stop

/-- The pieces that lie over a column. -/
def covering {α : Type} (pieces : List (Piece α)) (column : Nat) : List (Piece α) :=
  pieces.filter (·.liesOver column)

/-- The place is selected. -/
def isSelected (e : Editor) (place : Cursor) : Bool :=
  e.selection?.any fun s => s.first.le place && !s.last.le place

/-- The styles that lie over a character, the lowest first: that of its syntax, its decorations, its
findings, the selection and the cursor. -/
def layers (e : Editor) (row column : Nat) : List Style :=
  [(Coloring.styles (e.lineAt row))[column]?.getD .null] ++
  (covering (e.decorations.row row) column).map (fun p => p.value) ++
  (covering (e.marks.row row) column).map (fun p => findingStyle p.value) ++
  (if e.isSelected ⟨row, column⟩ then [selectionStyle] else []) ++
  (if e.focused && e.cursor = ⟨row, column⟩ then [cursorStyle] else [])

/-- The sum of the styles that lie over a character. -/
def charStyle (e : Editor) (row column : Nat) : Style :=
  (e.layers row column).foldl (· + ·) .null

section

variable {α : Type} {style : α → Style} {pieces : List (Piece α)} {styles styles' : List Style}

theorem covers_of_nonneg {p : Piece α} (hp : 0 ≤ p.start) {n column : Nat} (hcolumn : column < n) :
    p.covers n column = p.liesOver column := by
  rw [Bool.eq_iff_iff]
  simp only [Piece.covers, Piece.liesOver, Bool.or_eq_true, Bool.and_eq_true, decide_eq_true_eq]
  omega

theorem covering_cons (p : Piece α) (pieces : List (Piece α)) (column : Nat) :
    covering (p :: pieces) column
      = if p.liesOver column then p :: covering pieces column else covering pieces column :=
  List.filter_cons

theorem getElem?_lay {p : Piece α} (hp : 0 ≤ p.start) (h : p.lay style styles = .ok styles')
    (column : Nat) : styles'[column]? =
      styles[column]?.map fun s => if p.liesOver column then s + style p.value else s := by
  unfold Piece.lay at h
  rw [if_neg (by simp [Piece.underruns_of_nonneg hp])] at h
  obtain rfl := Except.ok.inj h
  rw [List.getElem?_mapIdx]
  cases hs : styles[column]? with
  | none => rfl
  | some s =>
    have hcolumn := (List.getElem?_eq_some_iff.1 hs).1
    rw [Option.map_some, Option.map_some, covers_of_nonneg hp hcolumn]

/-- **Each column has the styles of the pieces that lie over it,** added in their order. -/
theorem getElem?_layAll (hpieces : ∀ p ∈ pieces, 0 ≤ p.start)
    (h : pieces.foldlM (Piece.lay style) styles = .ok styles') (column : Nat) :
    styles'[column]? = styles[column]?.map fun s =>
      ((covering pieces column).map fun p => style p.value).foldl (· + ·) s := by
  induction pieces generalizing styles with
  | nil =>
    obtain rfl := Except.ok.inj h
    exact (Option.map_id_apply ..).symm
  | cons p pieces ih =>
    obtain ⟨laid, hlaid, hrest⟩ := exists_of_bind h
    rw [ih (fun q hq => hpieces q (List.mem_cons_of_mem _ hq)) hrest,
      getElem?_lay (hpieces p List.mem_cons_self) hlaid, Option.map_map, covering_cons]
    split <;> rfl

end

section

variable {row column : Nat} {styles styles' : List Style}

/-- The selected piece of a row lies over the places of the row that are between both ends. -/
theorem liesOver_selectedPiece {s : Selection} {n : Nat} (hcolumn : column < n) :
    (selectedPiece? s row n).any (·.liesOver column)
      = (s.first.le ⟨row, column⟩ && !s.last.le ⟨row, column⟩) := by
  obtain ⟨⟨r, c⟩, ⟨r', c'⟩⟩ := s
  rw [Bool.eq_iff_iff]
  unfold selectedPiece?
  by_cases hrows : (decide (r ≤ row) && decide ((row : Int) ≤ r')) = true
  · rw [if_pos hrows, Option.any_some]
    simp only [Piece.liesOver, Cursor.le, Bool.and_eq_true, Bool.or_eq_true, Bool.not_eq_true',
      Bool.or_eq_false_iff, Bool.and_eq_false_iff, decide_eq_true_eq, decide_eq_false_iff_not]
      at hrows ⊢
    split <;> split <;> omega
  · rw [if_neg hrows, Option.any_none]
    simp only [Cursor.le, Bool.and_eq_true, Bool.or_eq_true, Bool.not_eq_true',
      Bool.or_eq_false_iff, Bool.and_eq_false_iff, decide_eq_true_eq, decide_eq_false_iff_not,
      Bool.false_eq_true, false_iff] at hrows ⊢
    omega

/-- Of a row the columns between both ends of the selection are drawn as selected. -/
theorem getElem?_withSelection (hwell : e.IsWellFormed)
    (h : e.withSelection row styles = .ok styles') (hcolumn : column < styles.length) :
    styles'[column]? = styles[column]?.map fun s =>
      if e.isSelected ⟨row, column⟩ then s + selectionStyle else s := by
  have hselected : e.isSelected ⟨row, column⟩ =
      (e.selection?.bind fun s => selectedPiece? s row styles.length).any (·.liesOver column) := by
    unfold isSelected
    cases e.selection? with
    | none => rfl
    | some s => exact (liesOver_selectedPiece hcolumn).symm
  rw [hselected]
  unfold withSelection at h
  cases hpiece : e.selection?.bind fun s => selectedPiece? s row styles.length with
  | none =>
    rw [hpiece] at h
    obtain rfl := Except.ok.inj h
    exact (Option.map_id_apply ..).symm
  | some p =>
    rw [hpiece] at h
    obtain ⟨s, hs, hp⟩ := Option.bind_eq_some_iff.1 hpiece
    have hvalue : p.value = selectionStyle := by
      unfold selectedPiece? at hp
      split at hp
      · obtain rfl := Option.some.inj hp
        rfl
      · simp at hp
    rw [getElem?_lay (hwell.start_selectedPiece hs hp) h, hvalue]
    rfl

/-- **A row is drawn in the sum of what lies over each place,** save for the cursor. -/
theorem getElem?_drawnStyles (hwell : e.IsWellFormed) (hfits : e.OverlaysFit)
    (hrow : row < e.buffer.lines.length) (h : e.drawnStyles row = .ok styles)
    (hcolumn : column < e.buffer.lines[row].length) :
    styles[column]?.map (fun s =>
      if e.focused && e.cursor = ⟨row, column⟩ then s + cursorStyle else s)
      = some (e.charStyle row column) := by
  obtain ⟨computed, hcomputed, hselected⟩ := exists_of_bind h
  have hlength := length_of_computeStyles hrow hcomputed
  obtain ⟨line, hline, hlaid⟩ := exists_of_bind hcomputed
  obtain ⟨decorated, hdecorated, hmarked⟩ := exists_of_bind hlaid
  rw [Buffer.line_natCast _ hrow] at hline
  obtain rfl := Except.ok.inj hline
  have hsyntax : (Coloring.styles e.buffer.lines[row])[column]?
      = some ((Coloring.styles (e.lineAt row))[column]?.getD .null) := by
    rw [lineAt_eq hrow, List.getElem?_eq_getElem (by rwa [length_coloring]), Option.getD_some]
  rw [getElem?_withSelection hwell hselected (by rwa [hlength]),
    getElem?_layAll (fun p hp => hfits.marks.row row hp) hmarked,
    getElem?_layAll (fun p hp => hfits.decorations.row row hp) hdecorated, hsyntax]
  simp only [Option.map_some, id_eq]
  unfold charStyle layers
  simp only [List.foldl_append, List.foldl_cons, List.foldl_nil, Style.null_add]
  congr 1
  split <;> split <;> rfl

end

/-! ## The characters of the rows -/

/-- The characters of a line with their styles. -/
def glyphs (e : Editor) (row : Nat) : List Glyph :=
  (e.lineAt row).mapIdx fun column c => (c, e.charStyle row column)

/-- The rows that a line takes: before each the number of the line or blanks, and behind the last
one the cursor if it stands at the end of the line. -/
def glyphRows (e : Editor) (row : Nat) : List (List Glyph) :=
  let line := e.lineAt row
  let segments := Segment.wrap (max 1 e.textWidth) line
  segments.mapIdx fun i s =>
    inked [e.gutter row (i = 0)] ++ s.slice (e.glyphs row) ++
    (if e.focused && e.cursor = ⟨row, line.length⟩ && i + 1 = segments.length then
      [(.scalar ' ', cursorStyle)] else []) ++
    [(.scalar '\n', .null)]

/-- The rows above the status line: those of the lines from the first one that is shown, as far as
there is room, and tildes below. -/
def screen (e : Editor) : List (List Glyph) :=
  let rows := ((List.range' e.firstLine (e.buffer.lines.length - e.firstLine)).flatMap
    e.glyphRows).take (e.height - 1)
  rows ++ List.replicate (e.height - 1 - rows.length) (inked e.tildeRow)

theorem length_screen (e : Editor) : e.screen.length = e.height - 1 := by
  unfold screen
  simp only [List.length_append, List.length_replicate, List.length_take]
  omega

theorem length_ofNat_le {m n : Nat} (h : m ≤ n) :
    (Text.ofNat m).length ≤ (Text.ofNat n).length := by
  have hpos : 0 < (Nat.toDigits 10 n).length := Nat.length_toDigits_pos
  rw [Text.ofNat_eq_digits, Text.ofNat_eq_digits, List.length_map, List.length_map,
    Nat.length_toDigits_le_iff (by decide) hpos]
  exact Nat.lt_of_le_of_lt h ((Nat.length_toDigits_le_iff (by decide) hpos).1 (Nat.le_refl _))

/-- **Whatever stands before a row has the same width.** -/
theorem length_gutter {row : Nat} (hrow : row < e.buffer.lines.length) (isFirst : Bool) :
    (e.gutter row isFirst).1.length = e.numberWidth + 1 := by
  have hdigits : (Text.ofNat (row + 1)).length ≤ e.numberWidth :=
    Nat.le_trans (length_ofNat_le hrow) (Nat.le_max_right _ _)
  cases isFirst with
  | true =>
    have hblank : (Text.ofString " ").length = 1 := rfl
    simp only [gutter, padLeft, if_true, List.length_append, List.length_replicate, hblank]
    omega
  | false => exact List.length_replicate

/-! ## Pieces and characters -/

/-- A cell with the cursor's style laid over it. -/
def Cell.glyph (c : Cell) : Glyph :=
  (c.char, if c.isCursor then c.style + cursorStyle else c.style)

/-- A piece that is not the cursor has the style of its first character. -/
theorem style_of_groupCells {c : Cell} {cells : List Cell} {t : Text} {s : Style} {pieces : Row}
    (hc : ¬c.isCursor = true) (h : groupCells (c :: cells) = (t, s) :: pieces) : s = c.style := by
  induction cells generalizing c t s pieces with
  | nil =>
    rw [groupCells_singleton hc] at h
    exact (Prod.mk.inj (List.cons.inj h).1).2.symm
  | cons d cells ih =>
    obtain ⟨t', s', pieces', hrest⟩ := exists_cons_groupCells d cells
    rw [groupCells_cons_text hc hrest] at h
    split at h
    · next hsame =>
      simp only [Bool.and_eq_true, Bool.not_eq_true', decide_eq_true_eq] at hsame
      rw [← (Prod.mk.inj (List.cons.inj h).1).2, ← hsame.2]
      exact ih (by simp [hsame.1]) hrest
    · exact (Prod.mk.inj (List.cons.inj h).1).2.symm

/-- Grouping leaves every character in its style. -/
theorem inked_groupCells {cells : List Cell}
    (h : ∀ c ∈ cells, isTerminalControl c.char = false) :
    inked (groupCells cells) = cells.map Cell.glyph := by
  induction cells with
  | nil => rfl
  | cons c cells ih =>
    have hclean : sanitize [c.char] = [c.char] := by simp [sanitize, h c List.mem_cons_self]
    specialize ih fun d hd => h d (List.mem_cons_of_mem _ hd)
    show _ = c.glyph :: cells.map Cell.glyph
    by_cases hc : c.isCursor = true
    · have hglyph : c.glyph = (c.char, c.style + cursorStyle) := by rw [Cell.glyph, if_pos hc]
      rw [groupCells_cons_cursor _ hc, inked_cons, hclean, ih, hglyph]
      rfl
    · have hglyph : c.glyph = (c.char, c.style) := by rw [Cell.glyph, if_neg hc]
      cases cells with
      | nil =>
        rw [groupCells_singleton hc, inked_cons, hclean, hglyph]
        rfl
      | cons d cells =>
        obtain ⟨t, s, pieces, hrest⟩ := exists_cons_groupCells d cells
        have hpiece := groupCells_cons_text hc hrest
        rw [hrest] at ih
        rw [← ih, hglyph, hpiece]
        split at hpiece
        · next hsame =>
          rw [if_pos hsame, ← style_of_groupCells hc hpiece, inked_cons, inked_cons]
          show (sanitize ([c.char] ++ t)).map _ ++ _ = _
          rw [sanitize_append, hclean]
          rfl
        · next hother =>
          rw [if_neg hother, inked_cons, hclean]
          rfl

/-! ## The rows -/

theorem inked_flatten (rows : List Row) : inked rows.flatten = (rows.map inked).flatten := by
  induction rows with
  | nil => rfl
  | cons r rows ih => rw [List.flatten_cons, inked_append, ih, List.map_cons, List.flatten_cons]

/-- Every line of the text is free of the terminal's controls. -/
def IsClean (e : Editor) : Prop :=
  ∀ line ∈ e.buffer.lines, ∀ c ∈ line, isTerminalControl c = false

section

variable {row column : Nat} {styles : List Style}

/-- Each line of the text has styles to be drawn in. -/
theorem IsWellFormed.exists_drawnStyles (hwell : e.IsWellFormed) (hfits : e.OverlaysFit)
    (hrow : row < e.buffer.lines.length) : ∃ styles, e.drawnStyles row = .ok styles := by
  obtain ⟨computed, hcomputed⟩ := hfits.exists_computeStyles hrow
  obtain ⟨styles, hstyles⟩ := hwell.exists_withSelection row computed
  exact ⟨styles, bind_of_ok hcomputed hstyles⟩

theorem cursor_eq_iff {p : Cursor} : p = ⟨row, column⟩ ↔ row = p.row ∧ column = p.column := by
  obtain ⟨r, c⟩ := p
  rw [Cursor.mk.injEq, eq_comm, @eq_comm _ c]

/-- The cells of a line are its characters with their styles. -/
theorem map_glyph_cells (hwell : e.IsWellFormed) (hfits : e.OverlaysFit)
    (hrow : row < e.buffer.lines.length) (h : e.drawnStyles row = .ok styles) :
    (e.cells row e.buffer.lines[row] styles).map Cell.glyph = e.glyphs row := by
  have hlength := length_of_drawnStyles hrow h
  refine List.ext_getElem (by simp [cells, glyphs, lineAt_eq hrow, hlength]) fun i hi _ => ?_
  have hi : i < e.buffer.lines[row].length := by simpa [cells, hlength] using hi
  have hstyle := getElem?_drawnStyles hwell hfits hrow h hi
  rw [List.getElem?_eq_getElem (by rwa [hlength]), Option.map_some] at hstyle
  simp only [cells, glyphs, List.getElem_map, List.getElem_mapIdx, List.getElem_zip, Cell.glyph,
    lineAt_eq hrow]
  rw [← Option.some.inj hstyle]
  simp only [cursor_eq_iff, Bool.decide_and, Bool.and_assoc]

/-- What stands behind the characters of a row: the cursor at the end of the line, and a line feed.
-/
theorem inked_rowEnd (hwell : e.IsWellFormed) (hrow : row < e.buffer.lines.length)
    (isLast : Bool) : inked (e.rowEnd row e.buffer.lines[row] isLast) =
      (if e.focused && e.cursor = ⟨row, e.buffer.lines[row].length⟩ && isLast then
        [(.scalar ' ', cursorStyle)] else []) ++ [(.scalar '\n', .null)] := by
  obtain ⟨r, c, hr, hcursor, hc⟩ := hwell.buffer.cursor
  have hends : ((row : Int) = r ∧ (e.buffer.lines[row].length : Int) ≤ c) ↔
      (row : Int) = r ∧ (e.buffer.lines[row].length : Int) = c := by
    refine and_congr_right fun hsame => ?_
    obtain rfl := Int.ofNat_inj.1 hsame
    omega
  have hat : (decide ((row : Int) = r) && decide ((e.buffer.lines[row].length : Int) ≤ c)) =
      decide (e.cursor = ⟨row, e.buffer.lines[row].length⟩) := by
    rw [← Bool.decide_and]
    exact decide_eq_decide.2 (hends.trans (by rw [Editor.cursor, hcursor, cursor_eq_iff]))
  unfold rowEnd
  rw [inked_append, ← hat, Editor.cursor, hcursor]
  simp only [Bool.and_assoc]
  split <;> rfl

/-- The characters of the rows of a line, before they are grouped to pieces. -/
theorem map_inked_textRows (hwell : e.IsWellFormed) (hfits : e.OverlaysFit) (hclean : e.IsClean)
    (hrow : row < e.buffer.lines.length) :
    (e.textRows (max 1 e.textWidth) row).map inked = e.glyphRows row := by
  obtain ⟨styles, hstyles⟩ := hwell.exists_drawnStyles hfits hrow
  have hchars (s : Segment) : inked (groupCells (((e.cells row e.buffer.lines[row] styles).take
      s.stop).drop s.start)) = s.slice (e.glyphs row) := by
    have hcell : ∀ c ∈ e.cells row e.buffer.lines[row] styles, isTerminalControl c.char = false :=
      fun c hc => hclean _ (List.getElem_mem hrow) _ (char_mem_of_mem_cells hc)
    rw [inked_groupCells fun c hc => hcell c (List.mem_of_mem_take (List.mem_of_mem_drop hc)),
      List.map_drop, List.map_take, map_glyph_cells hwell hfits hrow hstyles]
    rfl
  rw [textRows_of_drawn hrow hstyles]
  refine List.ext_getElem? fun i => ?_
  unfold glyphRows
  dsimp only
  rw [List.getElem?_map, List.getElem?_mapIdx, lineAt_eq hrow]
  cases hs : (Segment.wrap (max 1 e.textWidth) e.buffer.lines[row])[i]? with
  | none =>
    rw [List.getElem?_eq_none]
    · rfl
    · simpa [lineRows] using hs
  | some s =>
    rw [getElem?_lineRows hs, Option.map_some, Option.map_some, inked_cons, inked_append, hchars,
      inked_rowEnd hwell hrow]
    simp only [inked_cons, inked_nil, List.append_nil, List.append_assoc]

end

/-- The characters of the rows above the status line. -/
theorem map_inked_contentRows (hwell : e.IsWellFormed) (hfits : e.OverlaysFit)
    (hclean : e.IsClean) : e.contentRows.map inked = e.screen := by
  have hshown : e.shownRows.map inked =
      (List.range' e.firstLine (e.buffer.lines.length - e.firstLine)).flatMap e.glyphRows := by
    unfold shownRows rowsFrom
    rw [List.map_flatMap]
    refine List.flatMap_congr fun row hmem => ?_
    obtain ⟨k, hk, rfl⟩ := List.mem_range'.1 hmem
    exact map_inked_textRows hwell hfits hclean (by omega)
  unfold contentRows screen
  dsimp only
  rw [List.map_append, List.map_take, hshown, List.map_replicate, ← hshown, ← List.map_take,
    List.length_map]

/-- A row is one line: a line feed ends it, and there is none before. -/
theorem isLine_of_mem_contentRows (hwell : e.IsWellFormed) {r : Row} (hr : r ∈ e.contentRows) :
    IsLine r := by
  rcases List.mem_append.1 hr with hr | hr
  · exact isLine_of_mem_rowsFrom hwell.buffer (List.mem_of_mem_take hr)
  · obtain rfl := List.eq_of_mem_replicate hr
    have hblank : .scalar '\n' ∉ Text.ofString " " := by decide
    have htilde : .scalar '\n' ∉ Text.ofString "~" := by decide
    have hend : Text.ofString " \n" = Text.ofString " " ++ [.scalar '\n'] := by decide
    refine ⟨padLeft e.numberWidth "~" ++ Text.ofString " ", ?_, ?_⟩
    · rw [tildeRow, written_cons, written_nil, List.append_nil, hend, List.append_assoc]
    · simpa [hblank] using not_mem_padLeft e.numberWidth htilde

/-! ## The drawing -/

/--
**The drawing is exact.** In every state, above the status line stand as many rows as there is room
for, each ended by its only line feed: the rows of the lines from the first one that is shown, and
tildes below. The rows of a line have its characters, each once and in order, behind margins of one
width, and each character has the sum of the styles that lie over its place.
-/
theorem render_exact (hwell : e.IsWellFormed) (hcoherent : e.IsCoherent) (hfits : e.OverlaysFit)
    (hclean : e.IsClean) (hheight : 2 ≤ e.height) (hwidth : 10 ≤ e.width) :
    ∃ e' drawn, e.render = .ok (e', drawn) ∧
      drawn.styled = e.screen.flatten ++ inked e.statusLine ∧
      e.screen.length = e.height - 1 ∧
      (∀ r ∈ e.screen, ∃ t, r.map Prod.fst = t ++ [.scalar '\n'] ∧ .scalar '\n' ∉ t) ∧
      ∀ row < e.buffer.lines.length,
        (∀ isFirst, (e.gutter row isFirst).1.length = e.numberWidth + 1) ∧
        (e.glyphs row).map Prod.fst = e.lineAt row ∧
        (Segment.wrap (max 1 e.textWidth) (e.lineAt row)).flatMap (·.slice (e.glyphs row))
          = e.glyphs row := by
  obtain ⟨e', drawn, hdrawn⟩ := hfits.exists_render hwell
  obtain ⟨rfl, -⟩ := (of_render hcoherent hwell.buffer.lines_ne_nil hdrawn).2 hheight hwidth
  have hscreen := map_inked_contentRows hwell hfits hclean
  refine ⟨e', _, hdrawn, ?_, e.length_screen, fun r hr => ?_, fun row hrow => ⟨?_, ?_, ?_⟩⟩
  · rw [styled_ofPieces, inked_append, inked_flatten, hscreen]
  · rw [← hscreen] at hr
    obtain ⟨pieces, hpieces, rfl⟩ := List.mem_map.1 hr
    obtain ⟨t, ht, hfeed⟩ := isLine_of_mem_contentRows hwell hpieces
    refine ⟨sanitize t, ?_, fun hmem => hfeed (List.mem_of_mem_filter hmem)⟩
    rw [map_fst_inked, ht, sanitize_append]
    rfl
  · exact fun isFirst => length_gutter hrow isFirst
  · exact List.ext_getElem (by simp [glyphs]) fun i _ _ => by simp [glyphs]
  · exact Segment.flatMap_wrap (Nat.le_max_left 1 _) (by simp [glyphs])

/-- All of a text is selected, with a finding in its first line, which takes two rows. -/
theorem render_exact_selected :
    let finding : Finding := ⟨"a.json", ⟨1, 3⟩, .error, "m", "ab"⟩
    let e : Editor := { ofText "\"ab\": 12\nx" with width := 10, height := 5, focused := true }
    ∃ e₁ messages e' drawn,
      (e.setFindings [finding]).pressKey (.ofName "ctrl+a" none) = .ok (e₁, messages) ∧
      e₁.render = .ok (e', drawn) ∧ drawn.styled = e₁.screen.flatten ++ inked e₁.statusLine ∧
      e₁.screen.map (·.map Prod.fst) =
        (["  1 \"ab\": \n", "    12\n", "  2 x \n", "  ~ \n"] : List Text) ∧
      e₁.charStyle 0 1 = Ink.key.style + findingStyle finding + selectionStyle := by
  intro finding e
  have hnew : e.Reachable := .new "\"ab\": 12\nx" none 0 false true 10 5
  have hfits : (e.setFindings [finding]).OverlaysFit :=
    OverlaysFit.setFindings ⟨Overlay.fits_nil, Overlay.fits_nil⟩ (by simp [finding])
  have hrun : ((e.setFindings [finding]).pressKey (.ofName "ctrl+a" none)).map (fun r => decide <|
      r.1.height = 5 ∧ r.1.width = 10 ∧
      (∀ line ∈ r.1.buffer.lines, ∀ c ∈ line, isTerminalControl c = false) ∧
      r.1.screen.map (·.map Prod.fst) =
        (["  1 \"ab\": \n", "    12\n", "  2 x \n", "  ~ \n"] : List Text) ∧
      r.1.charStyle 0 1 = Ink.key.style + findingStyle finding + selectionStyle) = .ok true := by
    decide +kernel
  obtain ⟨⟨e₁, messages⟩, hpressed, hrun⟩ := exists_of_map hrun
  obtain ⟨(hheight : e₁.height = 5), (hwidth : e₁.width = 10), hclean, hrows, hstyle⟩ :=
    of_decide_eq_true hrun
  have hreached : e₁.Reachable := (hnew.setFindings [finding]).pressKey "ctrl+a" none hpressed
  have hfits₁ : e₁.OverlaysFit := hfits.of_pressed (pressed_of_pressKey hpressed)
  obtain ⟨e', drawn, hdrawn, hstyled, -⟩ :=
    render_exact hreached.isWellFormed hreached.isCoherent hfits₁ hclean (by omega) (by omega)
  exact ⟨e₁, messages, e', drawn, hpressed, hdrawn, hstyled, hrows, hstyle⟩

end LangFile.Editor
