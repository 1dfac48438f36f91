import Mathlib.Data.List.Forall2
import LangFile.Proofs.Editor.Drawn

/-!
# Spans cut by rows

What is laid over the text comes as spans of offsets and is kept as pieces of rows. A cell lies
under a piece of a span exactly when its offset lies in the span: places have the order of their
offsets, the rows between the places of both ends are covered as a whole, and the rows of these
places as far as they reach.

1. Pieces that are added keep their order (`Overlay.row_ofSpans`).
2. The pieces of one span (`Overlay.mem_cut`), and what they cover (`Overlay.isCut_cutRow`).
3. Decorations and findings (`pieces_cover_spans`).
-/

namespace LangFile

/-- The span is a stretch of a text of `n` characters. -/
def Span.IsWithin (s : Span) (n : Nat) : Prop := 0 ≤ s.start ∧ s.start ≤ s.stop ∧ s.stop ≤ n

namespace Editor

variable {α : Type}

namespace Overlay

/-! ## The order of pieces -/

theorem row_cons (r : Nat) (ps : List (Piece α)) (o : Overlay α) (row : Nat) :
    Overlay.row ((r, ps) :: o) row = if r = row then ps else Overlay.row o row := by
  unfold Overlay.row
  by_cases h : r = row
  · rw [if_pos h, List.find?_cons_of_pos (by simpa using h)]
    rfl
  · rw [if_neg h, List.find?_cons_of_neg (by simpa using h)]

/-- A piece that is added is the last one of its row. -/
theorem row_add (o : Overlay α) (r : Nat) (p : Piece α) (row : Nat) :
    (o.add r p).row row = o.row row ++ if r = row then [p] else [] := by
  induction o with
  | nil => exact row_cons r [p] [] row
  | cons first rest ih =>
    obtain ⟨r', ps⟩ := first
    unfold Overlay.add
    by_cases hrow : r' = r
    · subst hrow
      rw [if_pos rfl, row_cons, row_cons]
      split <;> simp
    · rw [if_neg hrow, row_cons, row_cons, ih]
      split
      · next hr' =>
        have hr : r ≠ row := fun hr => hrow (hr'.trans hr.symm)
        rw [if_neg hr, List.append_nil]
      · rfl

/-- The pieces of a span in a row. -/
def cutRow (b : Buffer) (row : Nat) (s : Span × α) : List (Piece α) :=
  ((cut b.lines b.lineStarts s.1).filter (·.1 = row)).map fun p => ⟨p.2.1, p.2.2, s.2⟩

/-- **The pieces of a row are those of the spans,** one span after the other. -/
theorem row_ofSpans (b : Buffer) (spans : List (Span × α)) (row : Nat) :
    (ofSpans b spans).row row = spans.flatMap (cutRow b row) := by
  have hadded (pieces : List (Nat × Int × Int)) (value : α) (o : Overlay α) :
      (pieces.foldl (fun o p => o.add p.1 ⟨p.2.1, p.2.2, value⟩) o).row row = o.row row ++
        (pieces.filter (·.1 = row)).map fun p => ⟨p.2.1, p.2.2, value⟩ := by
    induction pieces generalizing o with
    | nil => exact (List.append_nil _).symm
    | cons p pieces ih =>
      rw [List.foldl_cons, ih, row_add, List.filter_cons, List.append_assoc]
      by_cases hp : p.1 = row
      · simp [hp]
      · simp [hp]
  have hall (o : Overlay α) : (spans.foldl (fun o s => (cut b.lines b.lineStarts s.1).foldl
      (fun o p => o.add p.1 ⟨p.2.1, p.2.2, s.2⟩) o) o).row row
        = o.row row ++ spans.flatMap (cutRow b row) := by
    induction spans generalizing o with
    | nil => exact (List.append_nil _).symm
    | cons s spans ih =>
      rw [List.foldl_cons, ih, hadded, List.flatMap_cons, List.append_assoc]
      rfl
  exact hall []

/-! ## The pieces of a span -/

section

variable {b : Buffer} {s : Span × α} {r c r' c' row column : Nat}

/-- Rows before that of the last place are covered to their ends, and that row up to the place; the
row of the first place is covered from there. -/
theorem mem_cut {lines : List Text} {starts : List Nat} {span : Span}
    (hfirst : positionIn starts span.start = ⟨r, c⟩)
    (hlast : positionIn starts span.stop = ⟨r', c'⟩) (hle : r ≤ r') {start stop : Int} :
    (row, start, stop) ∈ cut lines starts span ↔
      r ≤ row ∧ (start = if row = r then (c : Int) else 0) ∧
        (row < r' ∧ stop = (lines[row]?.getD []).length ∨ row = r' ∧ stop = c' ∧ start < c') := by
  have hrows : ((r' : Int) - r).toNat = r' - r := by omega
  unfold cut
  rw [hfirst, hlast]
  dsimp only
  rw [hrows, Int.toNat_natCast, List.mem_append, List.mem_map]
  constructor
  · rintro (⟨k, hk, heq⟩ | hmem)
    · simp only [Prod.mk.injEq] at heq
      obtain ⟨rfl, rfl, rfl⟩ := heq
      have hk := List.mem_range.1 hk
      refine ⟨Nat.le_add_right r k, ?_, Or.inl ⟨by omega, rfl⟩⟩
      split <;> split <;> omega
    · obtain ⟨hlt, hmem⟩ := List.mem_ite_nil_right.1 hmem
      simp only [List.mem_singleton, Prod.mk.injEq] at hmem
      obtain ⟨rfl, rfl, rfl⟩ := hmem
      refine ⟨Nat.le_add_right r _, ?_, Or.inr ⟨by omega, rfl, hlt⟩⟩
      split <;> split <;> omega
  · rintro ⟨hrow, hstart, ⟨hlt, rfl⟩ | ⟨hsame, rfl, hlt⟩⟩
    · refine Or.inl ⟨row - r, List.mem_range.2 (by omega), ?_⟩
      have hfirst : row - r = 0 ↔ row = r := by omega
      rw [Nat.add_sub_cancel' hrow, hstart]
      simp only [hfirst]
    · right
      have hfirst : r' - r = 0 ↔ row = r := by omega
      have hrow : r + (r' - r) = row := by omega
      simp only [hfirst, hrow, ← hstart, if_pos hlt, List.mem_singleton]

/-- What a span is in a row. -/
structure IsCut (b : Buffer) (row : Nat) (s : Span × α) (pieces : List (Piece α)) : Prop where
  value : ∀ p ∈ pieces, p.value = s.2
  /-- No piece reaches past its line, and there is none where there is no line. -/
  inside : ∀ p ∈ pieces, row < b.lines.length ∧ 0 ≤ p.start ∧ p.start ≤ p.stop ∧
    p.stop ≤ (b.lines[row]?.getD []).length
  /-- A cell of the line lies under a piece exactly when its offset lies in the span. -/
  covers : ∀ column < (b.lines[row]?.getD []).length, (∃ p ∈ pieces, p.liesOver column) ↔
    s.1.start ≤ (b.lengthAbove row + column : Nat) ∧
      (b.lengthAbove row + column : Nat) < s.1.stop

theorem mem_cutRow {p : Piece α} :
    p ∈ cutRow b row s ↔ (row, p.start, p.stop) ∈ cut b.lines b.lineStarts s.1 ∧ p.value = s.2 := by
  obtain ⟨start, stop, value⟩ := p
  simp only [cutRow, List.mem_map, List.mem_filter, decide_eq_true_eq]
  constructor
  · rintro ⟨⟨r, c, c'⟩, ⟨hmem, rfl⟩, heq⟩
    obtain ⟨rfl, rfl, rfl⟩ := Piece.mk.inj heq
    exact ⟨hmem, rfl⟩
  · rintro ⟨hmem, rfl⟩
    exact ⟨_, ⟨hmem, rfl⟩, rfl⟩

/-- The pieces lie over the cells from the first place up to the last one. -/
theorem exists_liesOver_iff (hfirst : positionIn b.lineStarts s.1.start = ⟨r, c⟩)
    (hlast : positionIn b.lineStarts s.1.stop = ⟨r', c'⟩) (hle : r ≤ r')
    (hcolumn : column < (b.lines[row]?.getD []).length) :
    (∃ p ∈ cutRow b row s, p.liesOver column) ↔
      Cursor.le ⟨r, c⟩ ⟨row, column⟩ = true ∧ ¬Cursor.le ⟨r', c'⟩ ⟨row, column⟩ = true := by
  simp only [mem_cutRow, mem_cut hfirst hlast hle, Piece.liesOver, Cursor.le, Bool.or_eq_true,
    Bool.and_eq_true, decide_eq_true_eq]
  constructor
  · rintro ⟨p, ⟨⟨hrow, hstart, hstop⟩, -⟩, hover⟩
    split at hstart <;> omega
  · rintro ⟨hbehind, hbefore⟩
    have hstart : (if row = r then (c : Int) else 0) ≤ column := by split <;> omega
    rcases Nat.lt_or_ge row r' with hrow | hrow
    · have hend : (column : Int) < (b.lines[row]?.getD []).length := by omega
      exact ⟨⟨_, _, s.2⟩, ⟨⟨by omega, rfl, Or.inl ⟨hrow, rfl⟩⟩, rfl⟩, hstart, hend⟩
    · have hend : (column : Int) < c' := by omega
      have hsome := Int.lt_of_le_of_lt hstart hend
      exact ⟨⟨_, _, s.2⟩, ⟨⟨by omega, rfl, Or.inr ⟨by omega, rfl, hsome⟩⟩, rfl⟩, hstart, hend⟩

/-- No piece reaches past the line of its row. -/
theorem inside_of_mem_cutRow (hp : b.Holds ⟨r, c⟩) (hq : b.Holds ⟨r', c'⟩)
    (hfirst : positionIn b.lineStarts s.1.start = ⟨r, c⟩)
    (hlast : positionIn b.lineStarts s.1.stop = ⟨r', c'⟩) (hle : r ≤ r') {p : Piece α}
    (hmem : p ∈ cutRow b row s) : row < b.lines.length ∧ 0 ≤ p.start ∧ p.start ≤ p.stop ∧
      p.stop ≤ (b.lines[row]?.getD []).length := by
  obtain ⟨hr, hc⟩ := Buffer.holds_natCast.1 hp
  obtain ⟨hr', hc'⟩ := Buffer.holds_natCast.1 hq
  obtain ⟨hge, hstart, hstop⟩ := (mem_cut hfirst hlast hle).1 (mem_cutRow.1 hmem).1
  have hnonneg : 0 ≤ p.start := by split at hstart <;> omega
  obtain ⟨hbefore, hstop⟩ | ⟨rfl, hstop, hsome⟩ := hstop
  · split at hstart
    · next hsame =>
      subst hsame
      omega
    · omega
  · omega

/-- Both ends of a stretch of the text are places. -/
theorem exists_places (hne : b.lines ≠ []) {s : Span} (h : s.IsWithin b.text.length) :
    ∃ r c r' c' : Nat, b.Holds ⟨r, c⟩ ∧ b.Holds ⟨r', c'⟩ ∧
      s.start = b.offset ⟨r, c⟩ ∧ s.stop = b.offset ⟨r', c'⟩ := by
  obtain ⟨hpos, hle, hend⟩ := h
  obtain ⟨p, hp, hstart⟩ := Buffer.exists_offset_eq (o := s.start.toNat) hne (by omega)
  obtain ⟨q, hq, hstop⟩ := Buffer.exists_offset_eq (o := s.stop.toNat) hne (by omega)
  have ⟨r, c, _, hfirst, _⟩ := hp
  have ⟨r', c', _, hlast, _⟩ := hq
  subst hfirst hlast
  exact ⟨r, c, r', c', hp, hq, by omega, by omega⟩

/-- Without lines there is nothing to cut. -/
theorem cutRow_of_lines_eq_nil (hlines : b.lines = []) (h : s.1.IsWithin b.text.length) :
    cutRow b row s = [] := by
  obtain ⟨hpos, hle, hend⟩ := h
  have htext : b.text.length = 0 := by rw [Buffer.text, hlines]; rfl
  have hstart : s.1.start = 0 := by omega
  have hstop : s.1.stop = 0 := by omega
  simp only [cutRow, cut, Buffer.lineStarts, hlines, hstart, hstop]
  rfl

/-- **A span is cut into pieces that cover it,** if it is a stretch of the text. -/
theorem isCut_cutRow (h : s.1.IsWithin b.text.length) (row : Nat) :
    IsCut b row s (cutRow b row s) := by
  by_cases hne : b.lines = []
  · rw [cutRow_of_lines_eq_nil hne h]
    exact ⟨by simp, by simp, by simp [hne]⟩
  obtain ⟨r, c, r', c', hp, hq, hstart, hstop⟩ := exists_places hne h
  have hfirst := hstart ▸ Buffer.positionIn_offset hp
  have hlast := hstop ▸ Buffer.positionIn_offset hq
  have hplaces := (Buffer.offset_le_iff hp hq).1 (Int.ofNat_le.1 (hstart ▸ hstop ▸ h.2.1))
  have hle : r ≤ r' := by
    simp only [Cursor.le, Bool.or_eq_true, Bool.and_eq_true, decide_eq_true_eq] at hplaces
    omega
  refine ⟨fun p hmem => (mem_cutRow.1 hmem).2,
    fun p => inside_of_mem_cutRow hp hq hfirst hlast hle, fun column hcolumn => ?_⟩
  have hrow : row < b.lines.length := by
    by_contra hrow
    rw [List.getElem?_eq_none (Nat.le_of_not_lt hrow)] at hcolumn
    exact absurd hcolumn (Nat.not_lt_zero column)
  have hcell := Buffer.holds_natCast.2 ⟨hrow, Nat.le_of_lt hcolumn⟩
  rw [exists_liesOver_iff hfirst hlast hle hcolumn, ← Buffer.offset_le_iff hp hcell,
    ← Buffer.offset_le_iff hq hcell, Buffer.offset_eq hrow, hstart, hstop]
  omega

end

/-- The pieces of a row, part by part those of the spans. -/
theorem exists_cuts {b : Buffer} {spans : List (Span × α)}
    (h : ∀ s ∈ spans, s.1.IsWithin b.text.length) (row : Nat) :
    ∃ parts, (ofSpans b spans).row row = parts.flatten ∧
      List.Forall₂ (IsCut b row) spans parts := by
  refine ⟨spans.map (cutRow b row), ?_, ?_⟩
  · rw [row_ofSpans, List.flatMap_def]
  · rw [List.forall₂_map_right_iff, List.forall₂_same]
    exact fun s hs => isCut_cutRow (h s hs) row

end Overlay

/--
**What is laid over the text covers its spans,** if these are stretches of the text. The pieces of a
row are those of the spans, in the order of the spans. A piece stays inside its line, and a cell of
the line lies under a piece of a span exactly when its offset in the text lies in the span.
-/
theorem pieces_cover_spans (e : Editor) :
    (∀ spans : StyledSpans, (∀ s ∈ spans, ∀ span ∈ s.2, span.IsWithin e.content.length) →
      ∀ row : Nat, ∃ parts, (e.showDecorations spans).decorations.row row = parts.flatten ∧
        List.Forall₂ (Overlay.IsCut e.buffer row)
          (spans.flatMap fun s => s.2.map fun span => (span, s.1)) parts) ∧
    ∀ findings : List Finding, (∀ f ∈ findings, f.span.IsWithin e.content.length) →
      ∀ row : Nat, ∃ parts, (e.setFindings findings).marks.row row = parts.flatten ∧
        List.Forall₂ (Overlay.IsCut e.buffer row) (findings.map fun f => (f.span, f)) parts := by
  refine ⟨fun spans h row => ?_, fun findings h row => ?_⟩
  · refine Overlay.exists_cuts (fun span hspan => ?_) row
    obtain ⟨s, hs, hspan⟩ := List.mem_flatMap.1 hspan
    obtain ⟨within, hwithin, rfl⟩ := List.mem_map.1 hspan
    exact h s hs within hwithin
  · refine Overlay.exists_cuts (fun span hspan => ?_) row
    obtain ⟨f, hf, rfl⟩ := List.mem_map.1 hspan
    exact h f hf

/-- A span from the first line to the third one, across an empty line, and one in the third line. -/
theorem pieces_cover_spans_across :
    let e := ofText "ab\n\ncd"
    let bold : Style := { bold := true }
    let spans : StyledSpans := [(bold, [⟨1, 5⟩, ⟨4, 6⟩])]
    (∀ s ∈ spans, ∀ span ∈ s.2, span.IsWithin e.content.length) ∧
    (e.showDecorations spans).decorations.row 0 = [⟨1, 2, bold⟩] ∧
    ∃ parts, (e.showDecorations spans).decorations.row 2 = parts.flatten ∧
      List.Forall₂ (Overlay.IsCut e.buffer 2) [(⟨1, 5⟩, bold), (⟨4, 6⟩, bold)] parts := by
  intro e bold spans
  have hspans : ∀ s ∈ spans, ∀ span ∈ s.2, span.IsWithin e.content.length := by
    unfold Span.IsWithin
    decide
  exact ⟨hspans, rfl, (pieces_cover_spans e).1 spans hspans 2⟩

end Editor

end LangFile
