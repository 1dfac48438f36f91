import LangFile.Proofs.Format.Visible
import LangFile.Proofs.Preview.Markup
import Mathlib.Data.List.Forall2

/-!
# What a reader of the preview sees

The body of a preview is read back as one division for each line of the text, and in it one span for
each run of the line. No character of the text is read as part of a tag, and none is lost.

1. The lines of a text (`splitsInto_splitLines`).
2. The style sheets, which cannot leave their attribute (`IsInert`).
3. What a division shows (`ShowsLine`), for one line (`showsLine_division`) and for a whole text
   (`body_shows_lines`).
-/

namespace LangFile.Preview

open Markup

/-! ## Lines -/

/-- The lines of a text, which end at a line feed, or at a carriage return and a line feed. -/
inductive SplitsInto : Text → List Text → Prop
  | last {l : Text} : .scalar '\n' ∉ l → SplitsInto l [l]
  | feed {l t : Text} {ls : List Text} :
      .scalar '\n' ∉ l → l.getLast? ≠ some (.scalar '\r') → SplitsInto t ls →
      SplitsInto (l ++ .scalar '\n' :: t) (l :: ls)
  | returnFeed {l t : Text} {ls : List Text} :
      .scalar '\n' ∉ l → SplitsInto t ls →
      SplitsInto (l ++ .scalar '\r' :: .scalar '\n' :: t) (l :: ls)

theorem splitsInto_pieces {l : Text} {ls : List Text} (h : ∀ p ∈ l :: ls, .scalar '\n' ∉ p) :
    SplitsInto (Text.joinWith [.scalar '\n'] (l :: ls))
      ((l :: ls).dropLast.map dropCarriageReturn ++ (l :: ls).getLast?.toList) := by
  induction ls generalizing l with
  | nil => exact .last (h l List.mem_cons_self)
  | cons m ls ih =>
    obtain ⟨hl, hls⟩ := List.forall_mem_cons.1 h
    have htail := ih hls
    rw [Text.joinWith, List.append_assoc, List.singleton_append, List.dropLast_cons_cons,
      List.getLast?_cons_cons, List.map_cons, List.cons_append]
    unfold dropCarriageReturn
    split
    · next hreturn =>
      obtain ⟨l', rfl⟩ := List.getLast?_eq_some_iff.1 hreturn
      rw [List.dropLast_concat, List.append_assoc, List.singleton_append]
      exact .returnFeed (fun hmem => hl (List.mem_append_left _ hmem)) htail
    · next hreturn => exact .feed hl hreturn htail

theorem splitsInto_splitLines (t : Text) : SplitsInto t (splitLines t) := by
  obtain ⟨l, ls, hls⟩ := List.exists_cons_of_ne_nil (Text.splitOn_ne_nil '\n' t)
  have hpieces : ∀ p ∈ l :: ls, .scalar '\n' ∉ p := by
    intro p hp
    rw [← hls] at hp
    exact Text.not_mem_of_mem_splitOn hp
  have hsplit := splitsInto_pieces hpieces
  rw [← hls, Text.joinWith_splitOn] at hsplit
  exact hsplit

/-! ## Style sheets -/

/-- The string stays inside an attribute: it holds no angle bracket and no quotation mark. -/
def IsInert (s : String) : Prop := ∀ c ∈ s.toList, c ≠ '<' ∧ c ≠ '>' ∧ c ≠ '"'

-- The list is gone through, and not all characters that there are.
instance (s : String) : Decidable (IsInert s) :=
  List.decidableBAll (fun c => c ≠ '<' ∧ c ≠ '>' ∧ c ≠ '"') s.toList

theorem IsInert.append {s t : String} (hs : IsInert s) (ht : IsInert t) : IsInert (s ++ t) := by
  intro c hc
  rw [String.toList_append] at hc
  rcases List.mem_append.1 hc with hc | hc
  · exact hs c hc
  · exact ht c hc

theorem isInert_intercalate {sep : String} {l : List String} (hsep : IsInert sep)
    (h : ∀ s ∈ l, IsInert s) : IsInert (sep.intercalate l) := by
  induction l with
  | nil =>
    rw [String.intercalate_nil]
    decide
  | cons s l ih =>
    obtain ⟨hs, hl⟩ := List.forall_mem_cons.1 h
    cases l with
    | nil =>
      rw [String.intercalate_singleton]
      exact hs
    | cons u l =>
      rw [String.intercalate_cons_cons]
      exact (hs.append hsep).append (ih hl)

theorem isInert_color (c : HexColor) : IsInert c.toString := by
  have hdigit (d : HexDigit) : d.char ≠ '<' ∧ d.char ≠ '>' ∧ d.char ≠ '"' := by
    refine ⟨?_, ?_, ?_⟩
    · intro h
      have := h ▸ d.isHex
      exact absurd this (by decide)
    · intro h
      have := h ▸ d.isHex
      exact absurd this (by decide)
    · intro h
      have := h ▸ d.isHex
      exact absurd this (by decide)
  intro x hx
  simp only [HexColor.toString, HexByte.chars, String.toList_ofList, List.cons_append,
    List.nil_append, List.mem_cons, List.not_mem_nil, or_false] at hx
  rcases hx with rfl | rfl | rfl | rfl | rfl | rfl | rfl
  · decide
  all_goals exact hdigit _

theorem forall_isInert_ite {c : Prop} [Decidable c] {l : List String} (h : ∀ s ∈ l, IsInert s) :
    ∀ s ∈ (if c then l else []), IsInert s := by
  split
  · exact h
  · exact List.forall_mem_nil _

/-- **No style sheet leaves its attribute.** -/
theorem isInert_css (s : FormattingState) : IsInert (css s) := by
  refine isInert_intercalate (by decide) ?_
  have hcolor : IsInert ((s.color.map (·.toString)).getD defaultColor.hex) := by
    cases s.color with
    | none => exact isInert_color _
    | some c => exact isInert_color c
  have hlines : ∀ l ∈ (if s.strikethrough then ["line-through"] else []) ++
      (if s.underline then ["underline"] else []), IsInert l :=
    List.forall_mem_append.2 ⟨forall_isInert_ite (by decide), forall_isInert_ite (by decide)⟩
  unfold declarations
  dsimp only
  generalize (if s.strikethrough then ["line-through"] else []) ++
    (if s.underline then ["underline"] else []) = lines at hlines ⊢
  simp only [List.forall_mem_append]
  refine ⟨⟨⟨⟨?_, forall_isInert_ite (by decide)⟩, forall_isInert_ite (by decide)⟩, ?_⟩,
    forall_isInert_ite (by decide)⟩
  · refine List.forall_mem_singleton.2 (.append (.append (by decide) hcolor) (by decide))
  · split
    · exact List.forall_mem_nil _
    · refine List.forall_mem_singleton.2 (.append (.append (by decide) ?_) (by decide))
      exact isInert_intercalate (by decide) hlines

/-! ## One line -/

/-- What stands between the angle brackets of the tag that opens a span. -/
def spanTag (style : Text) : Text := Text.ofString "span style=\"" ++ style ++ Text.ofString "\""

/-- The pieces are spans, one behind the other, each with a style sheet and characters. -/
inductive AreSpans : List Piece → List (Text × Text) → Prop
  | nil : AreSpans [] []
  | cons {style content : Text} {ps : List Piece} {spans : List (Text × Text)} :
      .scalar '"' ∉ style → AreSpans ps spans →
      AreSpans (.tag (spanTag style) :: (content.map .character ++ .tag "/span" :: ps))
        ((style, content) :: spans)

/-- The pieces show a line. -/
structure ShowsLine (line : Text) (ps : List Piece) : Prop where
  /-- They are one division, around one span for each run or else around a space. A span holds the
  text of its run, and so the characters of the spans are the visible characters of the line, each
  in the style sheet of its state. -/
  division : ∃ inside spans, ps = .tag "div" :: (inside ++ [.tag "/div"]) ∧
    (if spans = [] then inside = (Text.ofString "&nbsp;").map .character
      else AreSpans inside spans) ∧
    spans.map (fun span => (span.1, replaceEntities span.2))
      = (Run.runs line true).map (fun run => (Text.ofString (css run.state), run.textIn line 0)) ∧
    spans.flatMap (fun span => (replaceEntities span.2).map fun c => (c, span.1))
      = (visibleCharacters line).map fun v => (v.1, Text.ofString (css v.2))
  /-- Without tags and entities they are the visible text. -/
  text : replaceEntities (characters ps)
    = if visibleText line = [] then Text.ofString "&nbsp;" else visibleText line

/-- What a segment is read as. -/
def spanPieces (segment : Segment) : List Piece :=
  .tag (spanTag (Text.ofString (css segment.2))) ::
    ((escapeMarkup segment.1).map .character ++ [.tag "/span"])

/-- What a line is read as. -/
def divisionPieces (segments : List Segment) : List Piece :=
  .tag "div" ::
    ((if segments = [] then (Text.ofString "&nbsp;").map .character
      else segments.flatMap spanPieces) ++ [.tag "/div"])

theorem not_mem_css (s : FormattingState) : .scalar '"' ∉ Text.ofString (css s) := by
  intro hmem
  obtain ⟨c, hc, hquote⟩ := List.mem_map.1 hmem
  exact (isInert_css s c hc).2.2 (CodePoint.scalar.inj hquote)

theorem bracketFree_css (s : FormattingState) : BracketFree (Text.ofString (css s)) := by
  intro x hx
  obtain ⟨c, hc, rfl⟩ := List.mem_map.1 hx
  obtain ⟨hopen, hclose, -⟩ := isInert_css s c hc
  exact ⟨fun h => hopen (CodePoint.scalar.inj h), fun h => hclose (CodePoint.scalar.inj h)⟩

theorem reads_spanHtml (segment : Segment) : Reads (spanHtml segment) (spanPieces segment) := by
  have hopen : BracketFree (spanTag (Text.ofString (css segment.2))) :=
    List.forall_mem_append.2
      ⟨List.forall_mem_append.2 ⟨by decide, bracketFree_css segment.2⟩, by decide⟩
  have hcontent := reads_characters (bracketFree_escapeMarkup segment.1)
  have hclose := reads_tag (show BracketFree "/span" by decide)
  have hspan := (reads_tag hopen).append (hcontent.append hclose)
  have hhtml : spanHtml segment
      = (.scalar '<' :: spanTag (Text.ofString (css segment.2)) ++ [.scalar '>']) ++
          (escapeMarkup segment.1 ++ (.scalar '<' :: Text.ofString "/span" ++ [.scalar '>'])) := by
    simp [spanHtml, spanTag, Text.ofString]
  rw [hhtml]
  exact hspan

theorem reads_lineHtml (segments : List Segment) :
    Reads (lineHtml segments) (divisionPieces segments) := by
  have hinside : Reads
      (if (segments.flatMap spanHtml).isEmpty then ("&nbsp;" : Text) else segments.flatMap spanHtml)
      (if segments = [] then (Text.ofString "&nbsp;").map .character
        else segments.flatMap spanPieces) := by
    cases segments with
    | nil => exact reads_characters (by decide)
    | cons segment segments =>
      have hne : ((segment :: segments).flatMap spanHtml).isEmpty = false := by
        simp [spanHtml, Text.ofString]
      rw [hne, if_neg (List.cons_ne_nil _ _)]
      exact .flatMap fun s _ => reads_spanHtml s
  have hdivision := ((reads_tag (show BracketFree "div" by decide)).append hinside).append
    (reads_tag (show BracketFree "/div" by decide))
  rw [List.append_assoc] at hdivision
  exact hdivision

theorem areSpans_flatMap (segments : List Segment) :
    AreSpans (segments.flatMap spanPieces)
      (segments.map fun segment => (Text.ofString (css segment.2), escapeMarkup segment.1)) := by
  induction segments with
  | nil => exact .nil
  | cons segment segments ih =>
    rw [List.flatMap_cons, spanPieces, List.cons_append, List.append_assoc]
    exact .cons (not_mem_css segment.2) ih

theorem characters_flatMap_spanPieces (segments : List Segment) :
    characters (segments.flatMap spanPieces) = escapeMarkup (segments.flatMap Prod.fst) := by
  rw [escapeMarkup_flatMap]
  induction segments with
  | nil => rfl
  | cons segment segments ih =>
    rw [List.flatMap_cons, List.flatMap_cons, characters_append, ih]
    congr 1
    have hspan := characters_append ((escapeMarkup segment.1).map .character) [.tag "/span"]
    rw [characters_map] at hspan
    exact hspan.trans (List.append_nil _)

theorem characters_divisionPieces (segments : List Segment) :
    characters (divisionPieces segments)
      = if segments = [] then Text.ofString "&nbsp;"
        else escapeMarkup (segments.flatMap Prod.fst) := by
  have htag (inside : Text) (ps : List Piece) : characters (.tag inside :: ps) = characters ps :=
    rfl
  rw [divisionPieces, htag, characters_append, htag]
  split
  · rw [characters_map]
    rfl
  · rw [characters_flatMap_spanPieces]
    exact List.append_nil _

theorem visibleText_eq_flatMap (line : Text) :
    visibleText line = (segments line).flatMap Prod.fst := by
  rw [segments, List.flatMap_map]
  rfl

theorem visibleText_eq_nil_iff (line : Text) : visibleText line = [] ↔ segments line = [] := by
  rw [visibleText_eq_flatMap, List.flatMap_eq_nil_iff]
  constructor
  · intro h
    rw [List.eq_nil_iff_forall_not_mem]
    intro segment hsegment
    obtain ⟨run, hrun, rfl⟩ := List.mem_map.1 hsegment
    exact Run.textIn_ne_nil hrun (h _ hsegment)
  · intro h segment hsegment
    rw [h] at hsegment
    exact absurd hsegment List.not_mem_nil

/-- **A line is shown by its division.** -/
theorem showsLine_division (line : Text) : ShowsLine line (divisionPieces (segments line)) := by
  refine ⟨⟨_, (segments line).map fun segment =>
    (Text.ofString (css segment.2), escapeMarkup segment.1), rfl, ?_, ?_, ?_⟩, ?_⟩
  · by_cases h : segments line = []
    · simp [h]
    · rw [if_neg h, if_neg (by simpa using h)]
      exact areSpans_flatMap (segments line)
  · simp [segments, replaceEntities_escapeMarkup, Function.comp_def]
  · simp only [List.flatMap_map, replaceEntities_escapeMarkup]
    rw [← Run.flatMap_runs, List.map_flatMap, segments, List.flatMap_map]
    simp [Run.characters, Function.comp_def]
  · rw [characters_divisionPieces]
    by_cases h : segments line = []
    · rw [if_pos h, if_pos ((visibleText_eq_nil_iff line).2 h)]
      rfl
    · rw [if_neg h, if_neg (mt (visibleText_eq_nil_iff line).1 h), replaceEntities_escapeMarkup,
        visibleText_eq_flatMap]

/--
**The preview of a text shows its lines, and nothing else.** Its body is read as one division for
each line and is made of nothing else, so every angle bracket belongs to the tag of a division or of
a span. A division holds
one span for each run of its line, and each visible character of the line stands in a span with the
style sheet of the state that the codes before it in the line lead to. Without tags and entities the
division is the visible text of the line, or a non-breaking space where nothing is visible.
-/
theorem body_shows_lines (t : Text) :
    ∃ ls divisions, SplitsInto t ls ∧ pieces (body t) = some divisions.flatten ∧
      body t = divisions.flatten.flatMap Piece.markup ∧ List.Forall₂ ShowsLine ls divisions := by
  have hpieces : pieces (body t)
      = some ((splitLines t).map fun line => divisionPieces (segments line)).flatten := by
    rw [← List.flatMap_def, body, lines, List.flatMap_map]
    exact (Reads.flatMap fun line _ => reads_lineHtml (segments line)).pieces_eq
  refine ⟨splitLines t, (splitLines t).map fun line => divisionPieces (segments line),
    splitsInto_splitLines t, hpieces, eq_flatMap_of_pieces hpieces, ?_⟩
  · rw [List.forall₂_map_right_iff]
    exact List.forall₂_same.2 fun line _ => showsLine_division line

-- Text that looks like a tag or like an entity is shown as it is.
example : pieces (body "<b>\n&lt;") = some
    (divisionPieces [("<b>", .default)] ++ divisionPieces [("&lt;", .default)]) := by
  decide

end LangFile.Preview
