import LangFile.Style.RichText

/-!
# Rich text made of pieces

The characters of a rich text are those of its pieces in order, without the terminal's controls, and
over each piece that has a style lies a span of its own. So each character is drawn in the style of
its piece (`styled_ofPieces`).
-/

namespace LangFile.RichText

variable {t : Text} {style : Style}

theorem sanitize_append (t u : Text) : sanitize (t ++ u) = sanitize t ++ sanitize u := by
  simp [sanitize]

/-- The characters of pieces. -/
def written (pieces : List (Text × Style)) : Text := pieces.flatMap (·.1)

@[simp] theorem written_nil : written [] = [] := rfl

@[simp] theorem written_cons (p : Text × Style) (pieces : List (Text × Style)) :
    written (p :: pieces) = p.1 ++ written pieces := rfl

@[simp] theorem written_append (before after : List (Text × Style)) :
    written (before ++ after) = written before ++ written after := by
  simp [written]

theorem plain_foldl_append (pieces : List (Text × Style)) (r : RichText) :
    (pieces.foldl (fun r piece => r.append piece.1 piece.2) r).plain
      = r.plain ++ sanitize (written pieces) := by
  induction pieces generalizing r with
  | nil => exact (List.append_nil _).symm
  | cons p pieces ih =>
    rw [List.foldl_cons, ih, plain_append, written_cons, sanitize_append, List.append_assoc]

theorem plain_ofPieces (pieces : List (Text × Style)) :
    (ofPieces pieces).plain = sanitize (written pieces) := by
  unfold ofPieces
  rw [plain_foldl_append]
  rfl

/-- Spans stay when more is appended. -/
theorem spans_subset_foldl_append (pieces : List (Text × Style)) (r : RichText) :
    r.spans ⊆ (pieces.foldl (fun r piece => r.append piece.1 piece.2) r).spans := by
  induction pieces generalizing r with
  | nil => exact fun _ h => h
  | cons p pieces ih =>
    intro s hs
    refine ih (r.append p.1 p.2) ?_
    unfold append
    split
    · exact hs
    · dsimp only
      split
      · exact hs
      · exact List.mem_append_left _ hs

/-- **A piece is drawn between those before it and those behind it,** and a style it has lies over
just its characters. -/
theorem ofPieces_append_cons (before after : List (Text × Style)) (ht : t ≠ [])
    (hstyle : style ≠ .null) :
    let r := ofPieces (before ++ (t, style) :: after)
    let start := (sanitize (written before)).length
    r.plain = sanitize (written before) ++ (sanitize t ++ sanitize (written after)) ∧
    ⟨start, start + (sanitize t).length, style⟩ ∈ r.spans := by
  have hsplit : ofPieces (before ++ (t, style) :: after)
      = after.foldl (fun r piece => r.append piece.1 piece.2)
          ((ofPieces before).append t style) := by
    simp [ofPieces]
  refine ⟨?_, ?_⟩
  · rw [plain_ofPieces, written_append, written_cons, sanitize_append, sanitize_append]
  · rw [hsplit, ← plain_ofPieces]
    refine spans_subset_foldl_append after _ ?_
    simp [append, ht, hstyle, Style.isNull]

/-! ## Characters and their styles -/

/-- The style of a character: those of the spans that lie over it, added in their order. -/
def styleAt (r : RichText) (i : Nat) : Style :=
  ((r.spans.filter fun s => s.start ≤ i && i < s.stop).map (·.style)).foldl (· + ·) .null

/-- The characters, each with its style. -/
def styled (r : RichText) : List (CodePoint × Style) := r.plain.mapIdx fun i c => (c, r.styleAt i)

/-- The characters of pieces, each in the style of its piece. -/
def inked (pieces : List (Text × Style)) : List (CodePoint × Style) :=
  pieces.flatMap fun p => (sanitize p.1).map (·, p.2)

@[simp] theorem inked_nil : inked [] = [] := rfl

@[simp] theorem inked_cons (p : Text × Style) (pieces : List (Text × Style)) :
    inked (p :: pieces) = (sanitize p.1).map (·, p.2) ++ inked pieces := rfl

@[simp] theorem inked_append (before after : List (Text × Style)) :
    inked (before ++ after) = inked before ++ inked after := by
  simp [inked]

theorem map_fst_inked (pieces : List (Text × Style)) :
    (inked pieces).map Prod.fst = sanitize (written pieces) := by
  induction pieces with
  | nil => rfl
  | cons p pieces ih =>
    rw [inked_cons, List.map_append, ih, written_cons, sanitize_append, List.map_map]
    exact congrArg (· ++ _) (List.map_id _)

/-- No span reaches behind the characters. -/
def SpansEnd (r : RichText) : Prop := ∀ s ∈ r.spans, s.stop ≤ r.plain.length

theorem SpansEnd.append {r : RichText} (h : r.SpansEnd) (t : Text) (style : Style) :
    (r.append t style).SpansEnd := by
  unfold RichText.append
  split
  · exact h
  · have hold : ∀ s ∈ r.spans, s.stop ≤ (r.plain ++ sanitize t).length := fun s hs => by
      rw [List.length_append]
      exact Nat.le_add_right_of_le (h s hs)
    intro s hs
    dsimp only at hs ⊢
    split at hs
    · exact hold s hs
    · rcases List.mem_append.1 hs with hs | hs
      · exact hold s hs
      · obtain rfl := List.mem_singleton.1 hs
        exact Nat.le_of_eq List.length_append.symm

theorem append_of_ne_nil (r : RichText) (ht : t ≠ []) (style : Style) :
    r.append t style =
      { plain := r.plain ++ sanitize t
        spans := if style.isNull then r.spans else
          r.spans ++ [⟨r.plain.length, r.plain.length + (sanitize t).length, style⟩] } := by
  unfold append
  rw [if_neg (by simpa using ht)]

/-- What is appended leaves the styles of the characters before it as they are. -/
theorem styleAt_append_of_lt (r : RichText) (t : Text) (style : Style) {i : Nat}
    (hi : i < r.plain.length) : (r.append t style).styleAt i = r.styleAt i := by
  by_cases ht : t = []
  · subst ht
    rfl
  · rw [append_of_ne_nil r ht]
    unfold styleAt
    dsimp only
    split
    · rfl
    · rw [List.filter_append, List.filter_cons_of_neg (by simp; omega), List.filter_nil,
        List.append_nil]

/-- What is appended is drawn in its style alone. -/
theorem styleAt_append_of_ge {r : RichText} (h : r.SpansEnd) (style : Style) {j : Nat}
    (hj : j < (sanitize t).length) : (r.append t style).styleAt (r.plain.length + j) = style := by
  have ht : t ≠ [] := by
    rintro rfl
    exact absurd hj (Nat.not_lt_zero j)
  have hnone : (r.spans.filter fun s => s.start ≤ r.plain.length + j &&
      r.plain.length + j < s.stop) = [] := by
    rw [List.filter_eq_nil_iff]
    intro s hs hover
    have hstop := h s hs
    simp only [Bool.and_eq_true, decide_eq_true_eq] at hover
    omega
  rw [append_of_ne_nil r ht]
  unfold styleAt
  dsimp only
  split
  · next hnull =>
    rw [hnone]
    exact (of_decide_eq_true hnull).symm
  · rw [List.filter_append, hnone, List.filter_cons_of_pos (by simp; omega), List.filter_nil]
    exact Style.null_add style

theorem styled_append {r : RichText} (h : r.SpansEnd) (t : Text) (style : Style) :
    (r.append t style).styled = r.styled ++ (sanitize t).map (·, style) := by
  unfold styled
  rw [plain_append, List.mapIdx_append]
  congr 1
  · refine List.ext_getElem (by simp) fun i hi _ => ?_
    rw [List.length_mapIdx] at hi
    simp [styleAt_append_of_lt r t style hi]
  · refine List.ext_getElem (by simp) fun j hj _ => ?_
    rw [List.length_mapIdx] at hj
    simp [Nat.add_comm j, styleAt_append_of_ge h style hj]

theorem styled_foldl_append {r : RichText} (h : r.SpansEnd) (pieces : List (Text × Style)) :
    (pieces.foldl (fun r piece => r.append piece.1 piece.2) r).styled
      = r.styled ++ inked pieces := by
  induction pieces generalizing r with
  | nil => exact (List.append_nil _).symm
  | cons p pieces ih =>
    rw [List.foldl_cons, ih (h.append p.1 p.2), styled_append h, inked_cons, List.append_assoc]

/-- **Every character is drawn in the style of its piece.** -/
theorem styled_ofPieces (pieces : List (Text × Style)) : (ofPieces pieces).styled = inked pieces :=
  styled_foldl_append (r := {}) (fun _ hs => absurd hs List.not_mem_nil) pieces

end LangFile.RichText
