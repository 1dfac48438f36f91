import LangFile.Proofs.Document
import LangFile.Proofs.Editor.FlatText
import LangFile.Proofs.Editor.History

/-!
# Line tables

An editor finds the starts of its lines by their lengths, and a document by its line feeds. Both
look an offset up among the starts. As long as no line of the editor holds a line feed, both tables
are the same, and places and offsets answer one another.

1. Looking an offset up in a table (`positionIn_of_between`), which keeps the order of offsets
   (`le_iff_positionIn`).
2. The table of an editor: the place of an offset (`Buffer.positionIn_offset`), and that every
   offset is that of a place (`Buffer.exists_offset_eq`).
3. Both tables are the same (`Buffer.lineStarts_eq`), and only then
   (`Buffer.lines_of_positionIn_eq`).
4. The table of a document (`Document.places_of_offsets`).
-/

namespace LangFile

/-! ## Looking up -/

section

variable {starts : List Nat} {offset : Int} {i s : Nat}

/-- Looking up keeps the order of offsets, whatever the table. -/
theorem le_iff_positionIn (starts : List Nat) (o o' : Int) :
    o ≤ o' ↔ (positionIn starts o).row < (positionIn starts o').row ∨
      (positionIn starts o).row = (positionIn starts o').row ∧
        (positionIn starts o).column ≤ (positionIn starts o').column := by
  have hrows (a b : Int) (hle : a ≤ b) : (positionIn starts a).row ≤ (positionIn starts b).row := by
    have hcount : starts.countP (fun s : Nat => decide ((s : Int) ≤ a))
        ≤ starts.countP fun s : Nat => decide ((s : Int) ≤ b) :=
      List.countP_mono_left fun s _ hs => decide_eq_true (Int.le_trans (of_decide_eq_true hs) hle)
    unfold positionIn
    dsimp only
    omega
  have hcolumn (a : Int) : (positionIn starts a).column
      = a - (starts[(positionIn starts a).row.toNat]?.getD 0 : Nat) := rfl
  have hle := hrows o o'
  have hge := hrows o' o
  have hleft := hcolumn o
  have hright := hcolumn o'
  by_cases hsame : (positionIn starts o).row = (positionIn starts o').row
  · rw [hsame] at hleft
    omega
  · omega

/-- Of offsets that increase those not behind another one are the first. -/
theorem getElem_le_of_lt_countP (hsorted : starts.Pairwise (· ≤ ·)) (hs : starts[i]? = some s)
    (hi : i < starts.countP fun s : Nat => decide ((s : Int) ≤ offset)) : (s : Int) ≤ offset := by
  induction starts generalizing i with
  | nil => simp at hs
  | cons first rest ih =>
    obtain ⟨hfirst, hrest⟩ := List.pairwise_cons.1 hsorted
    by_cases hle : (first : Int) ≤ offset
    · cases i with
      | zero =>
        obtain rfl := Option.some.inj hs
        exact hle
      | succ i =>
        rw [List.countP_cons_of_pos (by simpa using hle)] at hi
        exact ih hrest hs (Nat.lt_of_succ_lt_succ hi)
    · -- then none is, the first being the least
      have hnone : (first :: rest).countP (fun s : Nat => decide ((s : Int) ≤ offset)) = 0 := by
        rw [List.countP_eq_zero]
        intro x hx
        rcases List.mem_cons.1 hx with rfl | hx
        · simpa using hle
        · have hleast := hfirst x hx
          simp only [decide_eq_true_eq]
          omega
      omega

/-- The others are behind it. -/
theorem lt_getElem_of_countP_le (hsorted : starts.Pairwise (· ≤ ·)) (hs : starts[i]? = some s)
    (hi : (starts.countP fun s : Nat => decide ((s : Int) ≤ offset)) ≤ i) : offset < s := by
  induction starts generalizing i with
  | nil => simp at hs
  | cons first rest ih =>
    obtain ⟨hfirst, hrest⟩ := List.pairwise_cons.1 hsorted
    by_cases hle : (first : Int) ≤ offset
    · rw [List.countP_cons_of_pos (by simpa using hle)] at hi
      cases i with
      | zero => omega
      | succ i => exact ih hrest hs (Nat.le_of_succ_le_succ hi)
    · have hleast : first ≤ s := by
        cases i with
        | zero => exact Nat.le_of_eq (Option.some.inj hs)
        | succ i => exact hfirst s (List.mem_of_getElem? hs)
      omega

/-- The row of an offset is the one whose start it has reached, and not that of the next. -/
theorem positionIn_of_between (hsorted : starts.Pairwise (· ≤ ·)) (hs : starts[i]? = some s)
    (hle : (s : Int) ≤ offset) (hnext : ∀ s', starts[i + 1]? = some s' → offset < s') :
    positionIn starts offset = ⟨i, offset - s⟩ := by
  have hcount : (starts.countP fun s : Nat => decide ((s : Int) ≤ offset)) = i + 1 := by
    refine Nat.le_antisymm (Nat.le_of_not_lt fun hlt => ?_) (Nat.lt_of_not_le fun hge => ?_)
    · obtain ⟨s', hs'⟩ : ∃ s', starts[i + 1]? = some s' :=
        ⟨_, List.getElem?_eq_getElem (Nat.lt_of_lt_of_le hlt List.countP_le_length)⟩
      have hreached := getElem_le_of_lt_countP hsorted hs' hlt
      have hbefore := hnext s' hs'
      omega
    · have hbehind := lt_getElem_of_countP_le hsorted hs hge
      omega
  unfold positionIn
  dsimp only
  rw [hcount, Nat.add_sub_cancel, hs, Option.getD_some]

theorem column_positionIn (hsorted : starts.Pairwise (· ≤ ·)) (hpos : 0 ≤ offset)
    (hzero : 0 ∈ starts) : 0 ≤ (positionIn starts offset).column := by
  have hcount : 0 < starts.countP fun s : Nat => decide ((s : Int) ≤ offset) :=
    List.countP_pos_iff.2 ⟨0, hzero, by simpa using hpos⟩
  unfold positionIn
  dsimp only
  cases hs : starts[(starts.countP fun s : Nat => decide ((s : Int) ≤ offset)) - 1]? with
  | none =>
    rw [Option.getD_none]
    omega
  | some s =>
    have hle : (s : Int) ≤ offset := getElem_le_of_lt_countP hsorted hs (by omega)
    rw [Option.getD_some]
    omega

end

namespace Editor.Buffer

variable {b : Buffer} {p q : Cursor} {row column o : Nat}

/-! ## The table of an editor -/

theorem pairwise_startsAfter (pos : Nat) (lines : List Text) :
    (startsAfter pos lines).Pairwise (· ≤ ·) ∧ ∀ s ∈ startsAfter pos lines, pos ≤ s := by
  induction lines generalizing pos with
  | nil => exact ⟨.nil, fun s hs => absurd hs List.not_mem_nil⟩
  | cons l lines ih =>
    obtain ⟨hsorted, hbehind⟩ := ih (pos + l.length + 1)
    refine ⟨List.pairwise_cons.2 ⟨hbehind, hsorted⟩, fun s hs => ?_⟩
    rcases List.mem_cons.1 hs with rfl | hs
    · omega
    · exact Nat.le_trans (by omega) (hbehind s hs)

theorem pairwise_lineStarts (b : Buffer) : b.lineStarts.Pairwise (· ≤ ·) :=
  List.pairwise_cons.2 ⟨fun s _ => Nat.zero_le s, (pairwise_startsAfter 0 b.lines.dropLast).1⟩

theorem length_startsAfter (pos : Nat) (lines : List Text) :
    (startsAfter pos lines).length = lines.length := by
  induction lines generalizing pos with
  | nil => rfl
  | cons l lines ih => rw [startsAfter, List.length_cons, List.length_cons, ih]

theorem length_lineStarts (hne : b.lines ≠ []) : b.lineStarts.length = b.lines.length := by
  have hpos := List.length_pos_iff.2 hne
  rw [lineStarts, List.length_cons, length_startsAfter, List.length_dropLast]
  omega

/-- The length of the lines above a row, each with its line feed. -/
def lengthAbove (b : Buffer) (row : Nat) : Nat :=
  ((b.lines.take row).flatMap (· ++ [.scalar '\n'])).length

theorem lengthAbove_succ (hrow : row < b.lines.length) :
    b.lengthAbove (row + 1) = b.lengthAbove row + (b.lines[row].length + 1) := by
  unfold lengthAbove
  rw [List.take_succ_eq_append_getElem hrow, List.flatMap_append, List.length_append,
    List.flatMap_singleton, List.length_append, List.length_singleton]

theorem getElem?_lineStarts (hrow : row < b.lines.length) :
    b.lineStarts[row]? = some (b.lengthAbove row) := by
  have hstart := getElem?_startsAfter 0 (b.lines.take row) b.lines[row] (b.lines.drop (row + 1))
  rw [List.getElem_cons_drop, List.take_append_drop, Nat.zero_add,
    List.length_take_of_le (Nat.le_of_lt hrow)] at hstart
  exact hstart

theorem offset_eq (hrow : row < b.lines.length) (column : Nat) :
    b.offset ⟨row, column⟩ = b.lengthAbove row + column := by
  unfold offset
  rw [Int.toNat_natCast, Int.toNat_natCast, getElem?_lineStarts hrow, Option.getD_some]

/-- All lines have one line feed more than the text. -/
theorem lengthAbove_length (hne : b.lines ≠ []) :
    b.lengthAbove b.lines.length = b.text.length + 1 := by
  unfold lengthAbove text
  rw [List.take_length]
  rcases List.eq_nil_or_concat' b.lines with hnil | ⟨above, l, hlines⟩
  · exact absurd hnil hne
  · rw [hlines, Text.unlines_concat, List.flatMap_append, List.flatMap_singleton,
      List.length_append, List.length_append, List.length_append, List.length_singleton]
    omega

theorem holds_natCast :
    b.Holds ⟨row, column⟩ ↔
      row < b.lines.length ∧ column ≤ (b.lines[row]?.getD []).length := by
  constructor
  · rintro ⟨r, c, hr, heq, hc⟩
    obtain ⟨hrow, hcolumn⟩ := Cursor.mk.inj heq
    obtain rfl := Int.ofNat_inj.1 hrow
    rw [List.getElem?_eq_getElem hr, Option.getD_some]
    omega
  · rintro ⟨hrow, hcolumn⟩
    rw [List.getElem?_eq_getElem hrow, Option.getD_some] at hcolumn
    exact ⟨row, column, hrow, rfl, hcolumn⟩

/-- **The place of an offset** is found in the table. -/
theorem positionIn_offset (h : b.Holds p) :
    positionIn b.lineStarts (b.offset p) = ⟨p.row, p.column⟩ := by
  obtain ⟨row, column, hrow, rfl, hcolumn⟩ := h
  have hoffset := offset_eq hrow column
  rw [positionIn_of_between b.pairwise_lineStarts (getElem?_lineStarts hrow) (by omega), hoffset]
  · dsimp only
    congr 1
    omega
  · intro s hs
    have hnext : row + 1 < b.lines.length := by
      rw [← length_lineStarts (List.ne_nil_of_length_pos (Nat.zero_lt_of_lt hrow))]
      exact (List.getElem?_eq_some_iff.1 hs).1
    rw [getElem?_lineStarts hnext, lengthAbove_succ hrow] at hs
    have hs := Option.some.inj hs
    omega

/-- Places have the order of their offsets. -/
theorem offset_le_iff (hp : b.Holds p) (hq : b.Holds q) :
    b.offset p ≤ b.offset q ↔ p.le q = true := by
  have hle := le_iff_positionIn b.lineStarts (b.offset p) (b.offset q)
  rw [positionIn_offset hp, positionIn_offset hq, Int.ofNat_le] at hle
  rw [hle, Cursor.le]
  simp only [Bool.or_eq_true, Bool.and_eq_true, decide_eq_true_eq]

theorem offset_le (h : b.Holds p) : b.offset p ≤ b.text.length := by
  obtain ⟨above, left, right, below, hparts⟩ := holds_iff_exists_parts.1 h
  rw [offset_of_parts hparts, text_eq_of_parts hparts, List.length_append]
  exact Nat.le_add_right _ _

/-- **Every offset of the text is that of a place.** -/
theorem exists_offset_eq (hne : b.lines ≠ []) (ho : o ≤ b.text.length) :
    ∃ p, b.Holds p ∧ b.offset p = o := by
  have hrow (n : Nat) (hn : o < b.lengthAbove n) :
      ∃ row < n, b.lengthAbove row ≤ o ∧ o < b.lengthAbove (row + 1) := by
    induction n with
    | zero => exact absurd hn (Nat.not_lt_zero o)
    | succ n ih =>
      by_cases hlt : o < b.lengthAbove n
      · obtain ⟨row, hrow, hbounds⟩ := ih hlt
        exact ⟨row, Nat.lt_succ_of_lt hrow, hbounds⟩
      · exact ⟨n, Nat.lt_succ_self n, Nat.le_of_not_lt hlt, hn⟩
  obtain ⟨row, hrow, hle, hlt⟩ := hrow b.lines.length (by rw [lengthAbove_length hne]; omega)
  rw [lengthAbove_succ hrow] at hlt
  refine ⟨⟨row, (o - b.lengthAbove row : Nat)⟩, ⟨row, _, hrow, rfl, by omega⟩, ?_⟩
  rw [offset_eq hrow]
  omega

/-! ## The same table -/

theorem startsAfter_dropLast {lines : List Text} (h : ∀ l ∈ lines, .scalar '\n' ∉ l) (pos : Nat) :
    startsAfter pos lines.dropLast = lineStartsFrom pos (Text.unlines lines) := by
  induction lines generalizing pos with
  | nil => rfl
  | cons l lines ih =>
    obtain ⟨hl, hrest⟩ := List.forall_mem_cons.1 h
    have hnone : lineStartsFrom pos l = [] := by
      rw [← List.length_eq_zero_iff, length_lineStartsFrom, List.count_eq_zero]
      exact hl
    by_cases hlast : lines = []
    · rw [hlast, Text.unlines_singleton, hnone]
      rfl
    · rw [List.dropLast_cons_of_ne_nil hlast, Text.unlines_cons l hlast, lineStartsFrom_append,
        hnone, lineStartsFrom, if_pos rfl, startsAfter, ih hrest, List.nil_append]

/-- **Lines without line feeds start behind the line feeds of the text.** -/
theorem lineStarts_eq (h : ∀ l ∈ b.lines, .scalar '\n' ∉ l) :
    b.lineStarts = LangFile.lineStarts b.text := by
  unfold lineStarts LangFile.lineStarts text
  rw [startsAfter_dropLast h]

theorem length_le_count_unlines (lines : List Text) :
    lines.length ≤ (Text.unlines lines).count (.scalar '\n') + 1 := by
  induction lines with
  | nil => exact Nat.zero_le _
  | cons l lines ih =>
    by_cases hlast : lines = []
    · rw [hlast, List.length_singleton]
      omega
    · rw [Text.unlines_cons l hlast, List.count_append, List.count_cons_self, List.length_cons]
      omega

/-- Lines that have only the line feeds between them hold none. -/
theorem not_mem_of_count_unlines {lines : List Text}
    (h : (Text.unlines lines).count (.scalar '\n') + 1 ≤ lines.length) :
    ∀ l ∈ lines, .scalar '\n' ∉ l := by
  induction lines with
  | nil => simp
  | cons l lines ih =>
    by_cases hlast : lines = []
    · rw [hlast, Text.unlines_singleton, List.length_singleton] at h
      have hnone : l.count (.scalar '\n') = 0 := by omega
      simpa [hlast] using List.count_eq_zero.1 hnone
    · have hrest := length_le_count_unlines lines
      rw [Text.unlines_cons l hlast, List.count_append, List.count_cons_self, List.length_cons] at h
      have hnone : l.count (.scalar '\n') = 0 := by omega
      exact List.forall_mem_cons.2 ⟨List.count_eq_zero.1 hnone, ih (by omega)⟩

/-- If the end of the text has as many line feeds before it as the table says, no line holds one. -/
theorem lines_of_positionIn_eq
    (h : (positionIn b.lineStarts b.text.length).row = b.text.count (.scalar '\n')) :
    ∀ l ∈ b.lines, .scalar '\n' ∉ l := by
  by_cases hne : b.lines = []
  · simp [hne]
  have hpos := List.length_pos_iff.2 hne
  have hlast : b.lastRow < b.lines.length := by
    unfold lastRow
    omega
  -- the end of the text is that of the last line
  have hend : b.offset ⟨b.lastRow, b.lines[b.lastRow].length⟩ = b.text.length := by
    have hall := lengthAbove_length hne
    have hrow : b.lastRow + 1 = b.lines.length := by
      unfold lastRow
      omega
    rw [← hrow, lengthAbove_succ hlast] at hall
    rw [offset_eq hlast]
    omega
  have hrow := positionIn_offset ⟨b.lastRow, b.lines[b.lastRow].length, hlast, rfl, Nat.le_refl _⟩
  rw [hend] at hrow
  rw [hrow] at h
  dsimp only at h
  refine not_mem_of_count_unlines ?_
  unfold lastRow text at h
  omega

end Editor.Buffer

/-! ## The table of a document -/

namespace Document

open Editor

variable {d : Document}

/-- The table of a document is that of its text, whatever texts it has had. -/
theorem starts_foldl_setText (h : d.starts = lineStarts d.text) (texts : List Text) :
    (texts.foldl setText d).starts = lineStarts (texts.foldl setText d).text := by
  induction texts generalizing d with
  | nil => exact h
  | cons t texts ih =>
    refine ih ?_
    unfold setText
    split
    · exact h
    · rfl

theorem positionAt_of_le (h : d.starts = lineStarts d.text) {o : Nat} (ho : o ≤ d.text.length) :
    d.positionAt o = positionIn (lineStarts d.text) o := by
  have hoffset : max 0 (min (o : Int) (d.text.length : Nat)) = o := by omega
  unfold positionAt
  rw [hoffset, h]

/-- The lines of a text make its table. -/
theorem lineStarts_ofText (t : Text) : (Buffer.ofText t).lineStarts = lineStarts t := by
  rw [Buffer.lineStarts_eq (Buffer.isSound_ofText t).lines]
  exact congrArg lineStarts (Text.unlines_lines t)

theorem offsetAt_of_holds (h : d.starts = lineStarts d.text) {p : Cursor}
    (hp : (Buffer.ofText d.text).Holds p) :
    d.offsetAt p.row p.column = (Buffer.ofText d.text).offset p := by
  have hle := Buffer.offset_le hp
  have htext : (Buffer.ofText d.text).text = d.text := Text.unlines_lines d.text
  obtain ⟨row, column, hrow, rfl, hcolumn⟩ := hp
  have hlength := Buffer.length_lineStarts (Buffer.isSound_ofText d.text).lines_ne_nil
  rw [htext] at hle
  unfold Buffer.offset at hle ⊢
  rw [lineStarts_ofText, ← h, Int.toNat_natCast, Int.toNat_natCast] at hle ⊢
  rw [lineStarts_ofText, ← h] at hlength
  have hclamped : (max 0 (min (row : Int) (d.starts.length - 1))).toNat = row := by omega
  unfold offsetAt
  dsimp only
  rw [hclamped]
  omega

/-- The place of an offset is where the editor of the text has it. -/
theorem positionAt_offset (h : d.starts = lineStarts d.text) {p : Cursor}
    (hp : (Buffer.ofText d.text).Holds p) :
    d.positionAt ((Buffer.ofText d.text).offset p) = ⟨p.row, p.column⟩ := by
  have hle := Buffer.offset_le hp
  have htext : (Buffer.ofText d.text).text = d.text := Text.unlines_lines d.text
  rw [htext] at hle
  rw [positionAt_of_le h hle, ← lineStarts_ofText]
  exact Buffer.positionIn_offset hp

/-- The place of an offset is told by what stands before it. -/
theorem positionAt_eq_count (h : d.starts = lineStarts d.text) {o : Nat} (ho : o ≤ d.text.length) :
    d.positionAt o =
      ⟨(d.text.take o).count (.scalar '\n'), (Text.lastLine (d.text.take o)).length⟩ := by
  have hposition := positionIn_lineStarts (d.text.take o) (d.text.drop o)
  rw [List.take_append_drop, List.length_take_of_le ho] at hposition
  rw [positionAt_of_le h ho, hposition]

/--
**Places and offsets of a document answer one another.** Whatever texts it has had, the row of an
offset is the number of line feeds before it, and its column the number of characters behind the
last of these. An editor with the same text finds the same places by its own table exactly when none
of its lines holds a line feed.
-/
theorem places_of_offsets (path text language : Text) (texts : List Text) :
    let d := texts.foldl setText (.new path text language)
    (∀ o ≤ d.text.length,
      d.positionAt o =
        ⟨(d.text.take o).count (.scalar '\n'), (Text.lastLine (d.text.take o)).length⟩ ∧
      d.offsetAt (d.positionAt o).row (d.positionAt o).column = o) ∧
    (∀ (row : Nat) (line : Text), (Text.lines d.text)[row]? = some line →
      ∀ column ≤ line.length, d.positionAt (d.offsetAt row column) = ⟨row, column⟩) ∧
    ∀ e : Editor, e.content = d.text →
      ((∀ o ≤ d.text.length, positionIn e.buffer.lineStarts o = d.positionAt o) ↔
        ∀ l ∈ e.buffer.lines, .scalar '\n' ∉ l) := by
  intro d
  have hstarts : d.starts = lineStarts d.text := starts_foldl_setText rfl texts
  clear_value d
  have hne : (Buffer.ofText d.text).lines ≠ [] := (Buffer.isSound_ofText d.text).lines_ne_nil
  have htext : (Buffer.ofText d.text).text = d.text := Text.unlines_lines d.text
  refine ⟨fun o ho => ⟨positionAt_eq_count hstarts ho, ?_⟩, fun row line hline column hcolumn => ?_,
    fun e (he : e.buffer.text = d.text) => ⟨fun hsame => ?_, fun hlines o ho => ?_⟩⟩
  · obtain ⟨p, hp, rfl⟩ := Buffer.exists_offset_eq hne (htext.symm ▸ ho)
    rw [positionAt_offset hstarts hp]
    exact offsetAt_of_holds hstarts hp
  · obtain ⟨hrow, rfl⟩ := List.getElem?_eq_some_iff.1 hline
    have hp : (Buffer.ofText d.text).Holds ⟨row, column⟩ := ⟨row, column, hrow, rfl, hcolumn⟩
    have hoffset := offsetAt_of_holds hstarts hp
    dsimp only at hoffset
    rw [hoffset, positionAt_offset hstarts hp]
  · refine Buffer.lines_of_positionIn_eq ?_
    rw [he, hsame _ (Nat.le_refl _), positionAt_eq_count hstarts (Nat.le_refl _), List.take_length]
  · rw [positionAt_of_le hstarts ho, Buffer.lineStarts_eq hlines, he]

/-- A document that has had another text, and an editor on its text. The second line is empty. -/
theorem places_of_offsets_edited :
    let d := [Text.ofString "가\n\nbc"].foldl setText (.new "a.json" "x" "")
    d.text = Text.ofString "가\n\nbc" ∧
    d.positionAt 4 = ⟨2, 1⟩ ∧ d.offsetAt 2 1 = 4 ∧
    d.positionAt (d.offsetAt 1 0) = ⟨1, 0⟩ ∧
    positionIn (ofText d.text).buffer.lineStarts 4 = d.positionAt 4 := by
  intro d
  obtain ⟨hplaces, hoffsets, htables⟩ :=
    places_of_offsets "a.json" "x" "" [Text.ofString "가\n\nbc"]
  have hcontent : (ofText d.text).content = d.text := Text.unlines_lines d.text
  have hplace : d.positionAt 4 = ⟨2, 1⟩ := (hplaces 4 (by decide)).1
  have hoffset := (hplaces 4 (by decide)).2
  have hrow := hoffsets 1 [] (by decide) 0 (Nat.le_refl 0)
  have hsame := (htables (ofText d.text) hcontent).2 (Buffer.isSound_ofText d.text).lines
  exact ⟨rfl, hplace, hoffset, hrow, hsame 4 (by decide)⟩

/-- A text with a line feed that takes the place of some columns stays in their line. Behind the
line feed the editor then finds the first row, and a document with the same text the second. -/
theorem places_differ_behind_feed :
    let d := Document.new "a.json" "x\nyab"
    ∃ e, (ofText "ab").replaceColumns 0 0 0 "x\ny" = .ok e ∧ e.content = d.text ∧
      positionIn e.buffer.lineStarts 2 = ⟨0, 2⟩ ∧ d.positionAt 2 = ⟨1, 0⟩ := by
  have hreplaced : ((ofText "ab").replaceColumns 0 0 0 "x\ny").map (fun e =>
      (e.content, positionIn e.buffer.lineStarts 2)) = .ok (Text.ofString "x\nyab", ⟨0, 2⟩) := by
    decide +kernel
  obtain ⟨e, he, hfound⟩ := exists_of_map hreplaced
  obtain ⟨hcontent, hplace⟩ := Prod.mk.inj hfound
  exact ⟨e, he, hcontent, hplace, by decide +kernel⟩

end Document

end LangFile
