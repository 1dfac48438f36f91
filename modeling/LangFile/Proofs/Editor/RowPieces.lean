import Mathlib.Data.Nat.Digits.Defs
import LangFile.Proofs.Editor.Screen
import LangFile.Proofs.Editor.Wrap
import LangFile.Proofs.RichText

/-!
# The pieces of a row

A row of the screen holds the number of its line or blanks, the characters of its stretch of the
line grouped to pieces of one style, and at its end a line feed. The cursor is a piece of its own,
and the rows before it are drawn as if there was none.

1. Cells grouped to pieces (`written_groupCells`, `groupCells_cursor`).
2. The rows as lines of text (`exists_texts_of_isLine`).
3. What a row of a line holds (`getElem?_lineRows`), and the row with the cursor
   (`exists_cursor_piece`).
4. Rows that look as they do without focus (`getElem?_lineRows_unfocused`, `rowsFrom_unfocused`).
-/

namespace LangFile.Editor

open RichText

variable {e : Editor}

/-! ## The pieces of a row -/

theorem groupCells_cons_cursor (cells : List Cell) {c : Cell} (hc : c.isCursor = true) :
    groupCells (c :: cells) = ([c.char], c.style + cursorStyle) :: groupCells cells := by
  rw [groupCells, if_pos hc]

theorem groupCells_singleton {c : Cell} (hc : ¬c.isCursor = true) :
    groupCells [c] = [([c.char], c.style)] := by
  rw [groupCells, if_neg hc]
  rfl

/-- A character goes before the piece of the next one, or is a piece by itself. -/
theorem groupCells_cons_text {c d : Cell} {cells : List Cell} {t : Text} {s : Style} {pieces : Row}
    (hc : ¬c.isCursor = true) (hrest : groupCells (d :: cells) = (t, s) :: pieces) :
    groupCells (c :: d :: cells) =
      if !d.isCursor && d.style = c.style then (c.char :: t, s) :: pieces
      else ([c.char], c.style) :: (t, s) :: pieces := by
  rw [groupCells, if_neg hc, hrest]

theorem exists_cons_groupCells (c : Cell) (cells : List Cell) :
    ∃ t s pieces, groupCells (c :: cells) = (t, s) :: pieces := by
  induction cells generalizing c with
  | nil =>
    by_cases hc : c.isCursor = true
    · exact ⟨_, _, _, groupCells_cons_cursor [] hc⟩
    · exact ⟨_, _, _, groupCells_singleton hc⟩
  | cons d cells ih =>
    obtain ⟨t, s, pieces, hrest⟩ := ih d
    by_cases hc : c.isCursor = true
    · exact ⟨_, _, _, groupCells_cons_cursor _ hc⟩
    · rw [groupCells_cons_text hc hrest]
      split <;> exact ⟨_, _, _, rfl⟩

/-- The pieces hold the characters in order. -/
theorem written_groupCells (cells : List Cell) :
    written (groupCells cells) = cells.map (·.char) := by
  induction cells with
  | nil => rfl
  | cons c cells ih =>
    by_cases hc : c.isCursor = true
    · rw [groupCells_cons_cursor _ hc, written_cons, ih]
      rfl
    · cases cells with
      | nil => rw [groupCells_singleton hc]; rfl
      | cons d cells =>
        obtain ⟨t, s, pieces, hrest⟩ := exists_cons_groupCells d cells
        rw [hrest] at ih
        rw [groupCells_cons_text hc hrest, List.map_cons, ← ih]
        split <;> rfl

/-- **The cursor is a piece of its own,** reversed. -/
theorem groupCells_cursor (before after : List Cell) {c : Cell} (hc : c.isCursor = true) :
    groupCells (before ++ c :: after)
      = groupCells before ++ ([c.char], c.style + cursorStyle) :: groupCells after := by
  induction before with
  | nil => exact groupCells_cons_cursor after hc
  | cons b before ih =>
    by_cases hb : b.isCursor = true
    · rw [List.cons_append, groupCells_cons_cursor _ hb, groupCells_cons_cursor _ hb, ih]
      rfl
    · cases before with
      | nil =>
        -- the piece before the cursor does not go on with it
        rw [List.cons_append, List.nil_append,
          groupCells_cons_text hb (groupCells_cons_cursor after hc)]
        simp [hc, groupCells_singleton hb]
      | cons d before =>
        obtain ⟨t, s, pieces, hrest⟩ := exists_cons_groupCells d before
        rw [hrest, List.cons_append, List.cons_append] at ih
        rw [List.cons_append, List.cons_append, groupCells_cons_text hb ih,
          groupCells_cons_text hb hrest]
        split <;> rfl

/-! ## The texts of the rows -/

/-- The row is one line of text. -/
def IsLine (r : Row) : Prop := ∃ t, written r = t ++ [.scalar '\n'] ∧ .scalar '\n' ∉ t

theorem not_mem_ofNat (n : Nat) : .scalar '\n' ∉ Text.ofNat n :=
  fun hmem => absurd (Text.isDigit_of_mem_ofNat hmem) (by decide)

theorem not_mem_blanks (n : Nat) : .scalar '\n' ∉ blanks n :=
  fun hmem => absurd (List.eq_of_mem_replicate hmem) (by decide)

theorem not_mem_padLeft (width : Nat) {t : Text} (ht : .scalar '\n' ∉ t) :
    .scalar '\n' ∉ padLeft width t :=
  fun hmem => (List.mem_append.1 hmem).elim (not_mem_blanks _) ht

theorem not_mem_gutter (e : Editor) (row : Nat) (isFirst : Bool) :
    .scalar '\n' ∉ (e.gutter row isFirst).1 := by
  have hblank : .scalar '\n' ∉ Text.ofString " " := by decide
  unfold gutter
  split
  · simpa [hblank] using not_mem_padLeft e.numberWidth (not_mem_ofNat (row + 1))
  · exact not_mem_blanks _

theorem char_mem_of_mem_cells {row : Nat} {line : Text} {styles : List Style} {c : Cell}
    (h : c ∈ e.cells row line styles) : c.char ∈ line := by
  obtain ⟨i, hi, rfl⟩ := List.mem_mapIdx.1 h
  exact (List.of_mem_zip (List.getElem_mem hi)).1

theorem isLine_concat {r : Row} (h : .scalar '\n' ∉ written r) :
    IsLine (r ++ [(Text.ofString "\n", .null)]) := by
  refine ⟨written r, ?_, h⟩
  rw [written_append]
  rfl

/-- Each row of a line is one line of text. -/
theorem isLine_of_mem_lineRows {avail row : Nat} {line : Text} {styles : List Style} {r : Row}
    (hline : .scalar '\n' ∉ line) (h : r ∈ e.lineRows avail row line styles) : IsLine r := by
  obtain ⟨i, hi, rfl⟩ := List.mem_mapIdx.1 h
  refine isLine_concat ?_
  simp only [written_append, List.mem_append, not_or]
  refine ⟨⟨?_, ?_⟩, ?_⟩
  · simpa using not_mem_gutter e row (i = 0)
  · rw [written_groupCells]
    intro hmem
    obtain ⟨c, hc, hfeed⟩ := List.mem_map.1 hmem
    have hchar := char_mem_of_mem_cells (List.mem_of_mem_take (List.mem_of_mem_drop hc))
    rw [hfeed] at hchar
    exact hline hchar
  · split
    · decide
    · exact List.not_mem_nil

theorem isLine_of_mem_rowsFrom (h : e.buffer.IsSound) {avail row lines : Nat} {r : Row}
    (hr : r ∈ e.rowsFrom avail row lines) : IsLine r := by
  obtain ⟨i, -, hr⟩ := List.mem_flatMap.1 hr
  refine isLine_of_mem_lineRows ?_ hr
  cases hline : e.buffer.lines[i]? with
  | none => exact List.not_mem_nil
  | some line => exact h.lines line (List.mem_of_getElem? hline)

/-- The rows of the screen as they are seen. -/
theorem exists_texts_of_isLine {rows : List Row} (h : ∀ r ∈ rows, IsLine r) :
    ∃ texts : List Text, texts.length = rows.length ∧ (∀ t ∈ texts, .scalar '\n' ∉ t) ∧
      sanitize (written rows.flatten) = texts.flatMap (· ++ [.scalar '\n']) := by
  induction rows with
  | nil => exact ⟨[], rfl, fun _ ht => absurd ht List.not_mem_nil, rfl⟩
  | cons r rows ih =>
    obtain ⟨texts, hlength, hfree, htexts⟩ := ih fun r hr => h r (List.mem_cons_of_mem _ hr)
    obtain ⟨t, ht, hfeed⟩ := h r List.mem_cons_self
    have hclean : .scalar '\n' ∉ sanitize t := fun hmem => hfeed (List.mem_of_mem_filter hmem)
    refine ⟨sanitize t :: texts, by simp [hlength], ?_, ?_⟩
    · simpa using ⟨hclean, hfree⟩
    · rw [List.flatten_cons, written_append, sanitize_append, ht, sanitize_append, htexts,
        List.flatMap_cons]
      rfl

/-! ## The row of the cursor -/

/-- An element inside a stretch of a list, with what the stretch has before and behind it. -/
theorem drop_take_eq_append {α : Type} {l : List α} {start i stop : Nat} (hstart : start ≤ i)
    (hstop : i < stop) (hi : i < l.length) : (l.take stop).drop start
      = (l.take i).drop start ++ l[i] :: (l.take stop).drop (i + 1) := by
  have hlt : i < (l.take stop).length := by
    rw [List.length_take]
    omega
  have hbefore : (l.take stop).take i = l.take i := by
    rw [List.take_take, Nat.min_eq_left (Nat.le_of_lt hstop)]
  have hbehind : (l.take stop).drop i = l[i] :: (l.take stop).drop (i + 1) := by
    rw [List.drop_eq_getElem_cons hlt, List.getElem_take]
  have hsplit : l.take stop = l.take i ++ l[i] :: (l.take stop).drop (i + 1) := by
    rw [← hbehind, ← hbefore, List.take_append_drop]
  have hle : start ≤ (l.take i).length := by
    rw [List.length_take]
    omega
  calc (l.take stop).drop start
      = (l.take i ++ l[i] :: (l.take stop).drop (i + 1)).drop start := by rw [← hsplit]
    _ = _ := List.drop_append_of_le_length hle

section

variable {avail row column : Nat} {line : Text} {styles : List Style}

theorem length_cells (hstyles : styles.length = line.length) :
    (e.cells row line styles).length = line.length := by
  simp [cells, hstyles]

theorem chars_cells (hstyles : styles.length = line.length) :
    (e.cells row line styles).map (·.char) = line := by
  refine List.ext_getElem (by simp [cells, hstyles]) fun i hi hi' => ?_
  simp [cells]

/-- What stands behind the characters of a row. -/
def rowEnd (e : Editor) (row : Nat) (line : Text) (isLast : Bool) : Row :=
  (if e.focused && row = e.cursor.row && line.length ≤ e.cursor.column && isLast then
    [(Text.ofString " ", cursorStyle)] else []) ++ [(Text.ofString "\n", Style.null)]

theorem getElem?_lineRows {i : Nat} {s : Segment} (hs : (Segment.wrap avail line)[i]? = some s) :
    (e.lineRows avail row line styles)[i]? = some (e.gutter row (i = 0) ::
      (groupCells (((e.cells row line styles).take s.stop).drop s.start) ++
        e.rowEnd row line (i + 1 = (Segment.wrap avail line).length))) := by
  unfold lineRows rowEnd
  dsimp only
  rw [List.getElem?_mapIdx, hs, Option.map_some]
  simp

/-- **What a row has at the cursor:** its number and the characters before the cursor, and then the
cursor's character, reversed. -/
theorem exists_cursor_piece {text : Text} (havail : 0 < avail) (hfocused : e.focused = true)
    (hcursor : e.cursor = ⟨row, column⟩) (hcolumn : column ≤ text.length)
    (hstyles : styles.length = text.length) :
    ∃ s before style after,
      (Segment.wrap avail text)[Segment.index avail text column]? = some s ∧
      (e.lineRows avail row text styles)[Segment.index avail text column]?
        = some (e.gutter row (Segment.index avail text column = 0) :: (before ++
            ([text[column]?.getD (.scalar ' ')], style + cursorStyle) :: after)) ∧
      written before = (text.take column).drop s.start := by
  obtain ⟨s, hs, hstart, hwhere⟩ := Segment.exists_segment havail hcolumn
  have hchars : (e.cells row text styles).map (·.char) = text := chars_cells hstyles
  have hwritten (stop : Nat) :
      written (groupCells (((e.cells row text styles).take stop).drop s.start))
        = (text.take stop).drop s.start := by
    rw [written_groupCells, List.map_drop, List.map_take, hchars]
  have hrow : (e.lineRows avail row text styles)[Segment.index avail text column]? = _ :=
    getElem?_lineRows hs
  rcases hwhere with ⟨hlt, hstop, -⟩ | ⟨rfl, hstop, hlast⟩
  · have hcell : column < (e.cells row text styles).length := by rwa [length_cells hstyles]
    have hchar : (e.cells row text styles)[column]
        = ⟨text[column], styles[column], true⟩ := by
      simp [cells, hfocused, hcursor]
    rw [drop_take_eq_append hstart hstop hcell, groupCells_cursor _ _ (by rw [hchar]), hchar,
      List.append_assoc, List.cons_append] at hrow
    rw [List.getElem?_eq_getElem hlt]
    exact ⟨s, _, _, _, hs, hrow, hwritten column⟩
  · have hend : e.rowEnd row text true = ([.scalar ' '], .null + cursorStyle) ::
        [(Text.ofString "\n", Style.null)] := by
      simp [rowEnd, hfocused, hcursor, Style.null_add]
      rfl
    rw [hstop, hlast, decide_eq_true rfl, hend] at hrow
    rw [List.getElem?_eq_none (Nat.le_refl _)]
    exact ⟨s, _, _, _, hs, hrow, hwritten text.length⟩

/-! ## Without focus -/

/-- The editor without focus. -/
def unfocused (e : Editor) : Editor := { e with focused := false }

theorem take_eq_take {α : Type} {l l' : List α} {n : Nat} (h : ∀ i < n, l[i]? = l'[i]?) :
    l.take n = l'.take n := by
  refine List.ext_getElem? fun i => ?_
  by_cases hi : i < n
  · rw [List.getElem?_take_of_lt hi, List.getElem?_take_of_lt hi, h i hi]
  · rw [List.getElem?_take_eq_none (Nat.le_of_not_lt hi),
      List.getElem?_take_eq_none (Nat.le_of_not_lt hi)]

/-- The cells before the cursor look as they do without focus. -/
theorem take_cells_unfocused (hcursor : e.cursor = ⟨row, column⟩) {stop : Nat}
    (hstop : stop ≤ column) :
    (e.cells row line styles).take stop = (e.unfocused.cells row line styles).take stop := by
  refine take_eq_take fun i hi => ?_
  have hne : ¬i = column := by omega
  simp [cells, hcursor, unfocused, hne]

/-- A row that ends before the cursor looks as it does without focus. -/
theorem getElem?_lineRows_unfocused (hcursor : e.cursor = ⟨row, column⟩) {i : Nat}
    (hi : i < Segment.index avail line column) : (e.lineRows avail row line styles)[i]?
      = (e.unfocused.lineRows avail row line styles)[i]? := by
  cases hs : (Segment.wrap avail line)[i]? with
  | none =>
    unfold lineRows
    dsimp only
    rw [List.getElem?_mapIdx, List.getElem?_mapIdx, hs]
    rfl
  | some s =>
    obtain ⟨hstop, hlast⟩ := Segment.stop_le_of_lt_index hs hi
    rw [getElem?_lineRows hs, getElem?_lineRows hs, take_cells_unfocused hcursor hstop]
    simp only [rowEnd, hlast, decide_false, Bool.and_false]
    rfl

/-- A line without the cursor looks as it does without focus. -/
theorem lineRows_unfocused (hne : e.cursor.row ≠ row) :
    e.lineRows avail row line styles = e.unfocused.lineRows avail row line styles := by
  have hrow : ¬(row : Int) = e.cursor.row := fun heq => hne heq.symm
  have hcells : e.cells row line styles = e.unfocused.cells row line styles := by
    simp [cells, hrow, unfocused]
  unfold lineRows
  dsimp only
  rw [hcells]
  simp only [hrow, decide_false, Bool.and_false, Bool.false_and]
  rfl

theorem rowsFrom_unfocused {lines : Nat} (hne : ∀ i < lines, e.cursor.row ≠ (row + i : Nat)) :
    e.rowsFrom avail row lines = e.unfocused.rowsFrom avail row lines := by
  unfold rowsFrom
  refine List.flatMap_congr fun i hi => ?_
  obtain ⟨k, hk, rfl⟩ := List.mem_range'.1 hi
  rw [Nat.one_mul]
  exact lineRows_unfocused (hne k hk)

end

end LangFile.Editor
