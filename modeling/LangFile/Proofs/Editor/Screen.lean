import LangFile.Proofs.Editor.KeptStyles
import LangFile.Proofs.Editor.LineTable

/-!
# What is drawn

The screen is made of the rows of the wrapped lines from the scroll position on, as many as there is
room for, and of tildes below. Each line is drawn from its present text and overlays alone.

1. Overlays that begin inside the text (`OverlaysFit`), and the styles of a row's characters, of
   which there are as many as characters (`exists_computeStyles`).
2. The rows of a line (`textRows`) and of the screen (`contentRows`), and that drawing gives these
   (`exists_render`).
-/

namespace LangFile.Editor

variable {e e' : Editor} {k : KeyPress}

/-! ## Overlays -/

section

variable {α : Type} {o : Overlay α}

/-- No piece begins before the first column. -/
def Overlay.Fits (o : Overlay α) : Prop := ∀ r ∈ o, ∀ p ∈ r.2, 0 ≤ p.start

theorem Overlay.fits_nil : Overlay.Fits ([] : Overlay α) := fun _ h => absurd h List.not_mem_nil

theorem Overlay.Fits.add (h : o.Fits) (row : Nat) {p : Piece α} (hp : 0 ≤ p.start) :
    (o.add row p).Fits := by
  induction o with
  | nil =>
    intro r hr q hq
    obtain rfl := List.mem_singleton.1 hr
    obtain rfl := List.mem_singleton.1 hq
    exact hp
  | cons first rest ih =>
    have hrest : Overlay.Fits rest := fun r hr => h r (List.mem_cons_of_mem _ hr)
    unfold Overlay.add
    split
    · intro r hr q hq
      rcases List.mem_cons.1 hr with rfl | hr
      · rcases List.mem_append.1 hq with hold | hnew
        · exact h first List.mem_cons_self q hold
        · obtain rfl := List.mem_singleton.1 hnew
          exact hp
      · exact hrest r hr q hq
    · intro r hr
      rcases List.mem_cons.1 hr with rfl | hr
      · exact h _ List.mem_cons_self
      · exact ih hrest r hr

theorem Overlay.Fits.row (h : o.Fits) (r : Int) {p : Piece α} (hp : p ∈ o.row r) : 0 ≤ p.start := by
  unfold Overlay.row at hp
  cases hfound : o.find? fun q => (q.1 : Int) = r with
  | none => simp [hfound] at hp
  | some found =>
    rw [hfound] at hp
    exact h found (List.mem_of_find?_eq_some hfound) p hp

theorem Overlay.nonneg_of_mem_cut {lines : List Text} {starts : List Nat} {span : Span}
    (hsorted : starts.Pairwise (· ≤ ·)) (hzero : 0 ∈ starts) (hspan : 0 ≤ span.start)
    {p : Nat × Int × Int} (hp : p ∈ Overlay.cut lines starts span) : 0 ≤ p.2.1 := by
  have hcolumn := column_positionIn hsorted hspan hzero
  unfold Overlay.cut at hp
  dsimp only at hp
  rcases List.mem_append.1 hp with hwhole | hlast
  · obtain ⟨j, -, rfl⟩ := List.mem_map.1 hwhole
    dsimp only
    split
    · exact hcolumn
    · exact Int.le_refl 0
  · obtain ⟨-, hlast⟩ := List.mem_ite_nil_right.1 hlast
    obtain rfl := List.mem_singleton.1 hlast
    dsimp only
    split
    · exact hcolumn
    · exact Int.le_refl 0

/-- The overlay of spans that begin in the text. -/
theorem Overlay.fits_ofSpans (b : Buffer) {spans : List (Span × α)}
    (hspans : ∀ s ∈ spans, 0 ≤ s.1.start) : (Overlay.ofSpans b spans).Fits := by
  have hadded (pieces : List (Nat × Int × Int)) (value : α) (o : Overlay α)
      (hpieces : ∀ p ∈ pieces, 0 ≤ p.2.1) (h : o.Fits) :
      (pieces.foldl (fun o p => o.add p.1 ⟨p.2.1, p.2.2, value⟩) o).Fits := by
    induction pieces generalizing o with
    | nil => exact h
    | cons p pieces ih =>
      exact ih _ (fun q hq => hpieces q (List.mem_cons_of_mem _ hq))
        (h.add p.1 (hpieces p List.mem_cons_self))
  have hall (spans : List (Span × α)) (o : Overlay α) (hspans : ∀ s ∈ spans, 0 ≤ s.1.start)
      (h : o.Fits) : (spans.foldl (fun o s => (Overlay.cut b.lines b.lineStarts s.1).foldl
        (fun o p => o.add p.1 ⟨p.2.1, p.2.2, s.2⟩) o) o).Fits := by
    induction spans generalizing o with
    | nil => exact h
    | cons s spans ih =>
      refine ih _ (fun q hq => hspans q (List.mem_cons_of_mem _ hq)) (hadded _ s.2 o ?_ h)
      intro p hp
      exact Overlay.nonneg_of_mem_cut b.pairwise_lineStarts List.mem_cons_self
        (hspans s List.mem_cons_self) hp
  exact hall spans [] hspans Overlay.fits_nil

end

/-- What is laid over the text begins inside it. -/
structure OverlaysFit (e : Editor) : Prop where
  decorations : e.decorations.Fits
  marks : e.marks.Fits

theorem OverlaysFit.showDecorations (h : e.OverlaysFit) {spans : StyledSpans}
    (hspans : ∀ s ∈ spans, ∀ span ∈ s.2, 0 ≤ span.start) :
    (e.showDecorations spans).OverlaysFit := by
  refine ⟨Overlay.fits_ofSpans e.buffer fun s hs => ?_, h.marks⟩
  obtain ⟨styled, hstyled, hmem⟩ := List.mem_flatMap.1 hs
  obtain ⟨span, hspan, rfl⟩ := List.mem_map.1 hmem
  exact hspans styled hstyled span hspan

theorem OverlaysFit.setFindings (h : e.OverlaysFit) {findings : List Finding}
    (hfindings : ∀ f ∈ findings, 0 ≤ f.span.start) : (e.setFindings findings).OverlaysFit := by
  refine ⟨h.decorations, Overlay.fits_ofSpans e.buffer fun s hs => ?_⟩
  obtain ⟨f, hf, rfl⟩ := List.mem_map.1 hs
  exact hfindings f hf

/-- A key press leaves the overlays as they are. -/
theorem Pressed.overlays (h : Pressed k e e') :
    e'.decorations = e.decorations ∧ e'.marks = e.marks := by
  cases h with
  | passed | edited => exact ⟨rfl, rfl⟩
  | undone _ _ _ hundo => rw [undoEdit_of_cons hundo]; exact ⟨rfl, rfl⟩
  | redone _ _ _ hredo => rw [redoEdit_of_cons hredo]; exact ⟨rfl, rfl⟩

theorem OverlaysFit.of_pressed (h : e.OverlaysFit) (hpressed : Pressed k e e') :
    e'.OverlaysFit := by
  obtain ⟨hdecorations, hmarks⟩ := hpressed.overlays
  exact ⟨hdecorations ▸ h.decorations, hmarks ▸ h.marks⟩

/-! ## The styles of a row -/

theorem length_stringFlagsFrom (inString afterBackslash : Bool) (line : Text) :
    (Coloring.stringFlagsFrom inString afterBackslash line).length = line.length := by
  induction line generalizing inString afterBackslash with
  | nil => rfl
  | cons c line ih =>
    unfold Coloring.stringFlagsFrom
    split <;> rw [List.length_cons, List.length_cons, ih]

theorem length_coloring (line : Text) : (Coloring.styles line).length = line.length := by
  simp [Coloring.styles, Coloring.inks, Coloring.stringFlags, length_stringFlagsFrom]

section

variable {α : Type} {style : α → Style} {pieces : List (Piece α)} {styles styles' : List Style}

theorem length_of_lay {p : Piece α} (h : p.lay style styles = .ok styles') :
    styles'.length = styles.length := by
  unfold Piece.lay at h
  split at h
  · injection h
  · obtain rfl := Except.ok.inj h
    simp

theorem length_of_layAll (h : pieces.foldlM (Piece.lay style) styles = .ok styles') :
    styles'.length = styles.length := by
  induction pieces generalizing styles with
  | nil =>
    obtain rfl := Except.ok.inj h
    rfl
  | cons p pieces ih =>
    obtain ⟨laid, hlaid, hrest⟩ := exists_of_bind h
    exact (ih hrest).trans (length_of_lay hlaid)

theorem exists_lay (style : α → Style) {p : Piece α} (hp : 0 ≤ p.start) (styles : List Style) :
    ∃ styles', p.lay style styles = .ok styles' := by
  unfold Piece.lay
  rw [if_neg (by simp [Piece.underruns_of_nonneg hp])]
  exact ⟨_, rfl⟩

theorem exists_layAll (style : α → Style) (hpieces : ∀ p ∈ pieces, 0 ≤ p.start)
    (styles : List Style) : ∃ styles', pieces.foldlM (Piece.lay style) styles = .ok styles' := by
  induction pieces generalizing styles with
  | nil => exact ⟨styles, rfl⟩
  | cons p pieces ih =>
    obtain ⟨laid, hlaid⟩ := exists_lay style (hpieces p List.mem_cons_self) styles
    obtain ⟨styles', hrest⟩ := ih (fun q hq => hpieces q (List.mem_cons_of_mem _ hq)) laid
    refine ⟨styles', ?_⟩
    rw [List.foldlM_cons, hlaid]
    exact hrest

end

theorem length_of_computeStyles {row : Nat} {styles : List Style}
    (hrow : row < e.buffer.lines.length) (h : e.computeStyles row = .ok styles) :
    styles.length = e.buffer.lines[row].length := by
  obtain ⟨line, hline, h⟩ := exists_of_bind h
  obtain ⟨decorated, hdecorated, hmarked⟩ := exists_of_bind h
  rw [Buffer.line_natCast _ hrow] at hline
  obtain rfl := Except.ok.inj hline
  rw [length_of_layAll hmarked, length_of_layAll hdecorated, length_coloring]

theorem OverlaysFit.exists_computeStyles (h : e.OverlaysFit) {row : Nat}
    (hrow : row < e.buffer.lines.length) : ∃ styles, e.computeStyles row = .ok styles := by
  obtain ⟨decorated, hdecorated⟩ :=
    exists_layAll id (fun p hp => h.decorations.row row hp)
      (Coloring.styles e.buffer.lines[row])
  obtain ⟨styles, hmarked⟩ :=
    exists_layAll findingStyle (fun p hp => h.marks.row row hp) decorated
  refine ⟨styles, ?_⟩
  unfold computeStyles
  rw [Buffer.line_natCast _ hrow]
  simp only [bind, Except.bind, hdecorated, hmarked]

/-! ## The rows of a line -/

/-- The styles in which the characters of a row are drawn. -/
def drawnStyles (e : Editor) (row : Nat) : Except Fault (List Style) :=
  e.computeStyles row >>= e.withSelection row

theorem length_of_withSelection {row : Nat} {styles styles' : List Style}
    (h : e.withSelection row styles = .ok styles') : styles'.length = styles.length := by
  unfold withSelection at h
  split at h
  · exact length_of_lay h
  · obtain rfl := Except.ok.inj h
    rfl

theorem length_of_drawnStyles {row : Nat} {styles : List Style} (hrow : row < e.buffer.lines.length)
    (h : e.drawnStyles row = .ok styles) : styles.length = e.buffer.lines[row].length := by
  obtain ⟨computed, hcomputed, hselected⟩ := exists_of_bind h
  rw [length_of_withSelection hselected, length_of_computeStyles hrow hcomputed]

/-- The screen rows of a line of the text. -/
def textRows (e : Editor) (avail row : Nat) : List Row :=
  e.lineRows avail row (e.buffer.lines[row]?.getD []) ((e.drawnStyles row).toOption.getD [])

/-- The screen rows of the lines from one on. -/
def rowsFrom (e : Editor) (avail row lines : Nat) : List Row :=
  (List.range' row lines).flatMap (e.textRows avail)

theorem rowsFrom_succ (e : Editor) (avail row lines : Nat) :
    e.rowsFrom avail row (lines + 1)
      = e.textRows avail row ++ e.rowsFrom avail (row + 1) lines := by
  simp [rowsFrom, List.range'_succ]

theorem rowsFrom_add (e : Editor) (avail row k lines : Nat) :
    e.rowsFrom avail row (k + lines)
      = e.rowsFrom avail row k ++ e.rowsFrom avail (row + k) lines := by
  simp [rowsFrom, ← List.range'_append_1]

theorem length_textRows (e : Editor) (avail row : Nat) :
    (e.textRows avail row).length = Segment.rows avail (e.buffer.lines[row]?.getD []) := by
  simp [textRows, lineRows, Segment.rows]

variable {avail lines row room : Nat} {rows : List Row}

theorem textRows_of_drawn (hrow : row < e.buffer.lines.length) {styles : List Style}
    (h : e.drawnStyles row = .ok styles) :
    e.textRows avail row = e.lineRows avail row e.buffer.lines[row] styles := by
  unfold textRows
  rw [h, List.getElem?_eq_getElem hrow]
  rfl

/-- **The lines are drawn as the rows of each,** as far as there is room, and those that begin on
the screen have styles. -/
theorem rows_of_drawLines (hkeeps : e.KeepsStyles) (hend : row + lines = e.buffer.lines.length)
    (h : drawLines avail lines row room e = .ok (e', rows)) :
    rows = (e.rowsFrom avail row lines).take room ∧
      ∀ k < lines, (e.rowsFrom avail row k).length < room →
        ∃ styles, e.drawnStyles (row + k) = .ok styles := by
  induction lines generalizing row room e rows with
  | zero =>
    obtain ⟨-, rfl⟩ := Prod.mk.inj (Except.ok.inj h)
    exact ⟨List.take_nil.symm, fun k hk => absurd hk (Nat.not_lt_zero k)⟩
  | succ lines ih =>
    unfold drawLines at h
    split at h
    · next hfull =>
      obtain ⟨-, rfl⟩ := Prod.mk.inj (Except.ok.inj h)
      rw [hfull, List.take_zero]
      exact ⟨rfl, fun k _ hroom => absurd hroom (Nat.not_lt_zero _)⟩
    · obtain ⟨line, hline, h⟩ := exists_of_bind h
      obtain ⟨⟨styled, styles⟩, hstyles, h⟩ := exists_of_bind h
      obtain ⟨selected, hselected, h⟩ := exists_of_bind h
      obtain ⟨⟨drawn, rest⟩, hrest, h⟩ := exists_of_bind h
      obtain ⟨rfl, rfl⟩ := Prod.mk.inj (Except.ok.inj h)
      obtain ⟨hcomputed, lineStyles, rfl, hkept⟩ := computeStyles_of_stylesOf hkeeps hstyles
      rw [Buffer.line_natCast _ (by omega)] at hline
      obtain rfl := Except.ok.inj hline
      obtain ⟨rfl, hbelow⟩ := ih hkept (by rw [← hend]; omega) hrest
      have hdrawn : e.drawnStyles row = .ok selected := by
        unfold drawnStyles
        rw [hcomputed]
        exact hselected
      have hrows : e.textRows avail row = e.lineRows avail row e.buffer.lines[row] selected :=
        textRows_of_drawn (by omega) hdrawn
      have hroom : room - ((e.textRows avail row).take room).length
          = room - (e.textRows avail row).length := by
        rw [List.length_take]
        omega
      rw [hrows] at hroom
      refine ⟨?_, fun k hk hbegins => ?_⟩
      · rw [rowsFrom_succ, List.take_append, hrows, ← hroom]
        rfl
      · cases k with
        | zero => exact ⟨selected, hdrawn⟩
        | succ k =>
          rw [rowsFrom_succ, List.length_append, hrows] at hbegins
          have hleft := Nat.lt_sub_of_add_lt (Nat.add_comm _ _ ▸ hbegins)
          have hstyled := hbelow k (Nat.lt_of_succ_lt_succ hk) (Nat.lt_of_lt_of_eq hleft hroom.symm)
          rwa [Nat.add_right_comm] at hstyled

/-! ## The screen -/

/-- The first line that is shown. -/
def firstLine (e : Editor) : Nat := min e.top e.buffer.lastRow

/-- The rows of all lines from the first one that is shown. -/
def shownRows (e : Editor) : List Row :=
  e.rowsFrom (max 1 e.textWidth) e.firstLine (e.buffer.lines.length - e.firstLine)

/-- The rows of the screen above the status line. -/
def contentRows (e : Editor) : List Row :=
  let rows := e.shownRows.take (e.height - 1)
  rows ++ List.replicate (e.height - 1 - rows.length) e.tildeRow

/-- Every line that begins on the screen has styles. -/
def IsStyled (e : Editor) : Prop :=
  ∀ k, e.firstLine + k < e.buffer.lines.length →
    (e.rowsFrom (max 1 e.textWidth) e.firstLine k).length < e.height - 1 →
    ∃ styles, e.drawnStyles (e.firstLine + k) = .ok styles

theorem exists_dropStaleStyles (e : Editor) :
    ∃ lineStyles stale, e.dropStaleStyles = { e with lineStyles, stale } := by
  unfold dropStaleStyles
  split
  · exact ⟨[], false, rfl⟩
  · exact ⟨e.lineStyles, e.stale, rfl⟩

theorem firstLine_lt (hne : e.buffer.lines ≠ []) : e.firstLine < e.buffer.lines.length := by
  have hpos := List.length_pos_iff.2 hne
  have hle : e.firstLine ≤ e.buffer.lastRow := Nat.min_le_right _ _
  unfold Buffer.lastRow at hle
  omega

/-- **What drawing gives.** It draws the present text, and keeps its styles. -/
theorem of_render {drawn : RichText} (hcoherent : e.IsCoherent) (hne : e.buffer.lines ≠ [])
    (h : e.render = .ok (e', drawn)) :
    e'.IsCoherent ∧ (2 ≤ e.height → 10 ≤ e.width →
      drawn = .ofPieces (e.contentRows.flatten ++ e.statusLine) ∧ e.IsStyled) := by
  refine ⟨hcoherent.rendered h, fun hheight hwidth => ?_⟩
  have hkeeps := keepsStyles_dropStaleStyles hcoherent
  unfold Editor.render at h
  split at h
  · next hsmall =>
    simp only [Bool.or_eq_true, decide_eq_true_eq] at hsmall
    omega
  · dsimp only at h
    obtain ⟨⟨shown, rows⟩, hlines, h⟩ := exists_of_bind h
    obtain ⟨rfl, rfl⟩ := Prod.mk.inj (Except.ok.inj h)
    obtain ⟨lineStyles, stale, hfresh⟩ := e.exists_dropStaleStyles
    rw [hfresh] at hlines hkeeps
    let top := e.firstLine
    replace hlines : drawLines (max 1 e.textWidth) (e.buffer.lines.length - top) top (e.height - 1)
        { e with top, lineStyles, stale } = .ok (shown, rows) := hlines
    replace hkeeps : KeepsStyles { e with top, lineStyles, stale } := hkeeps
    have htop : top < e.buffer.lines.length := firstLine_lt hne
    have hend : top + (e.buffer.lines.length - top) = e.buffer.lines.length := by omega
    obtain ⟨rfl, hstyled⟩ := rows_of_drawLines hkeeps hend hlines
    obtain ⟨lineStyles', rfl⟩ := exists_of_drawLines hlines
    refine ⟨?_, fun k hk hbegins => ?_⟩
    · rw [hfresh]
      rfl
    · exact hstyled k (by omega) hbegins

/-! ## Nothing fails -/

theorem bind_of_ok {α β : Type} {x : Except Fault α} {f : α → Except Fault β} {a : α}
    {r : Except Fault β} (hx : x = .ok a) (hf : f a = r) : x >>= f = r := by
  rw [hx]
  exact hf

/-- The selected piece of a row begins inside it. -/
theorem IsWellFormed.start_selectedPiece (h : e.IsWellFormed) {s : Selection}
    (hs : e.selection? = some s) {row n : Nat} {p : Piece Style}
    (hp : selectedPiece? s row n = some p) : 0 ≤ p.start := by
  have hbounds : e.bounds = s := by
    unfold Editor.bounds
    rw [hs, Option.getD_some]
  obtain ⟨⟨r, column, -, hfirst, -⟩, -, -⟩ := h.bounds
  rw [hbounds] at hfirst
  unfold selectedPiece? at hp
  split at hp
  · obtain rfl := Option.some.inj hp
    dsimp only
    split
    · rw [hfirst]
      exact Int.natCast_nonneg column
    · exact Int.le_refl 0
  · simp at hp

theorem IsWellFormed.exists_withSelection (h : e.IsWellFormed) (row : Nat) (styles : List Style) :
    ∃ styles', e.withSelection row styles = .ok styles' := by
  unfold withSelection
  cases hs : e.selection? with
  | none => exact ⟨styles, rfl⟩
  | some s =>
    rw [Option.bind_some]
    cases hp : selectedPiece? s row styles.length with
    | none => exact ⟨styles, rfl⟩
    | some p => exact exists_lay id (h.start_selectedPiece hs hp) styles

theorem OverlaysFit.exists_stylesOf (h : e.OverlaysFit) {row : Nat}
    (hrow : row < e.buffer.lines.length) : ∃ r, e.stylesOf row = .ok r := by
  unfold stylesOf
  split
  · exact ⟨_, rfl⟩
  · obtain ⟨styles, hstyles⟩ := h.exists_computeStyles hrow
    rw [hstyles]
    exact ⟨_, rfl⟩

theorem OverlaysFit.exists_drawLines (h : e.OverlaysFit) (hwell : e.IsWellFormed)
    (hend : row + lines ≤ e.buffer.lines.length) :
    ∃ r, drawLines avail lines row room e = .ok r := by
  induction lines generalizing row room e with
  | zero => exact ⟨_, rfl⟩
  | succ lines ih =>
    unfold drawLines
    split
    · exact ⟨_, rfl⟩
    · have hrow : row < e.buffer.lines.length := by omega
      obtain ⟨⟨styled, styles⟩, hstyles⟩ := h.exists_stylesOf hrow
      obtain ⟨lineStyles, rfl⟩ := exists_of_stylesOf hstyles
      have hwell' : IsWellFormed { e with lineStyles } := hwell.of_eq rfl rfl rfl rfl
      obtain ⟨selected, hselected⟩ := hwell'.exists_withSelection row styles
      have hrest (room : Nat) :
          ∃ r, drawLines avail lines (row + 1) room { e with lineStyles } = .ok r :=
        ih ⟨h.decorations, h.marks⟩ hwell' (by rw [Nat.add_right_comm]; exact hend)
      rw [Buffer.line_natCast _ hrow]
      simp only [bind, Except.bind, hstyles, hselected]
      obtain ⟨r, hr⟩ := hrest _
      exact ⟨_, bind_of_ok hr rfl⟩

/-- **Drawing never fails** when the overlays begin inside the text. -/
theorem OverlaysFit.exists_render (h : e.OverlaysFit) (hwell : e.IsWellFormed) :
    ∃ e' drawn, e.render = .ok (e', drawn) := by
  unfold Editor.render
  split
  · exact ⟨_, _, rfl⟩
  · obtain ⟨lineStyles, stale, hfresh⟩ := e.exists_dropStaleStyles
    rw [hfresh]
    let top := e.firstLine
    have htop : top < e.buffer.lines.length := firstLine_lt hwell.buffer.lines_ne_nil
    have hend : top + (e.buffer.lines.length - top) ≤ e.buffer.lines.length := by omega
    have hfits : OverlaysFit { e with top, lineStyles, stale } := ⟨h.decorations, h.marks⟩
    have hlines : ∃ r, drawLines (max 1 e.textWidth) (e.buffer.lines.length - top) top
        (e.height - 1) { e with top, lineStyles, stale } = .ok r :=
      hfits.exists_drawLines (hwell.of_eq rfl rfl rfl rfl) hend
    obtain ⟨⟨shown, rows⟩, hlines⟩ := hlines
    exact ⟨shown, _, bind_of_ok hlines rfl⟩

end LangFile.Editor
